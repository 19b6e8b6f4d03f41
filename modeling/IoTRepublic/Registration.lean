import IoTRepublic.KeyPath
import IoTRepublic.PackageOnly

/-!
Registrations. The two lookups of `add_new_device` share one scratch array that is
not cleared, and a lookup that finds nothing leaves it as it was. A device whose
group is missing is stored under its ID as the group, and without an ID the
function reads what the memory held before it.
-/
namespace IoTRepublic.Registration

open CheckedArray Package Jsmn JsFileParser Registry Lookup PackageOnly JsonText
open JsonTable KeyPath

/-- The node behind the first word inside the range that is spelled like the key. -/
def nodeBehind (key : List Byte) (start stop : ℕ) : List Node → Option Node
  | [] => none
  | n :: rest =>
    if (start ≤ n.start ∧ n.stop ≤ stop) ∧ (n.kind = .string ∨ n.kind = .primitive) ∧
      n.text = key then rest.head?
    else nodeBehind key start stop rest

/-- A word inside the range that is spelled like the key. -/
def Named (key : List Byte) (start stop : ℕ) (n : Node) : Prop :=
  (start ≤ n.start ∧ n.stop ≤ stop) ∧ n.isWord ∧ n.text = key

section

variable {doc : Document} {key : List Byte} {start stop : ℕ} {nodes : List Node}

/-- The search among the nodes of an object. -/
theorem hitOf_nodes (hmem : ∀ n ∈ nodes, n ∈ doc.nodes)
    (harray : ∀ n ∈ nodes, n.kind = .array → n.start ≠ start) :
    (∀ m, nodeBehind key start stop nodes = some m →
      hitOf doc.text key ⟨start, stop⟩ (nodes.map tokenOf) = .value (tokenOf m)) ∧
    (nodeBehind key start stop nodes = none →
      hitOf doc.text key ⟨start, stop⟩ (nodes.map tokenOf) = .behind ∧
          (∃ n ∈ nodes, Named key start stop n) ∨
        hitOf doc.text key ⟨start, stop⟩ (nodes.map tokenOf) = .missing ∧
          ∀ n ∈ nodes, ¬ Named key start stop n) := by
  induction nodes with
  | nil => exact ⟨fun m h => (by cases h), fun _ => .inr ⟨rfl, by simp⟩⟩
  | cons n rest ih =>
    have hrest := ih (fun m hm => hmem m (List.mem_cons_of_mem n hm))
      (fun m hm => harray m (List.mem_cons_of_mem n hm))
    by_cases hn : Named key start stop n
    · have hstep : nodeBehind key start stop (n :: rest) = rest.head? := if_pos hn
      have hhit : hitOf doc.text key ⟨start, stop⟩ ((n :: rest).map tokenOf) =
          Hit.next (rest.map tokenOf) := by
        have hkeep : ¬ ((tokenOf n).start < (start : ℤ) ∨ (tokenOf n).stop > (stop : ℤ)) := by
          have hin := hn.1
          simp only [tokenOf]
          omega
        rw [List.map_cons, hitOf.eq_def]
        dsimp only
        exact (if_neg hkeep).trans ((if_pos ((isWord_iff n).mp hn.2.1)).trans
          (if_pos ((tokenText_node (hmem n List.mem_cons_self)).trans hn.2.2)))
      rw [hstep, hhit]
      cases rest with
      | nil => exact ⟨fun m h => (by cases h), fun _ => .inl ⟨rfl, n, List.mem_cons_self, hn⟩⟩
      | cons m rest =>
        refine ⟨?_, fun h => by cases h⟩
        intro m' hm'
        obtain rfl := Option.some.inj hm'
        rfl
    · have hstep : nodeBehind key start stop (n :: rest) = nodeBehind key start stop rest :=
        if_neg hn
      have hpass : Passes key ⟨start, stop⟩ n := by
        by_cases hin : start ≤ n.start ∧ n.stop ≤ stop
        · right
          by_cases hword : n.isWord
          · exact .inl ⟨hword, fun htext => hn ⟨hin, hword, htext⟩⟩
          · refine .inr ⟨hword, fun hkind => ?_⟩
            have hne := harray n List.mem_cons_self hkind
            simp only
            omega
        · left
          simp only
          omega
      have hskip : hitOf doc.text key ⟨start, stop⟩ ([n].map tokenOf ++ rest.map tokenOf) = _ :=
        hitOf_pass (by simpa using hmem n List.mem_cons_self) (by simpa using hpass)
      have hcons : (n :: rest).map tokenOf = [n].map tokenOf ++ rest.map tokenOf := rfl
      rw [hstep, hcons, hskip]
      refine ⟨hrest.1, fun h => ?_⟩
      rcases hrest.2 h with ⟨hhit, m, hm, hnamed⟩ | ⟨hhit, hnone⟩
      · exact .inl ⟨hhit, m, List.mem_cons_of_mem n hm, hnamed⟩
      · refine .inr ⟨hhit, ?_⟩
        intro m hm
        rcases List.mem_cons.mp hm with rfl | hm
        · exact hn
        · exact hnone m hm

theorem nodeBehind_mem {m : Node} (h : nodeBehind key start stop nodes = some m) :
    (∃ n ∈ nodes, Named key start stop n) ∧ m ∈ nodes := by
  induction nodes with
  | nil => cases h
  | cons n rest ih =>
    by_cases hn : Named key start stop n
    · rw [show nodeBehind key start stop (n :: rest) = rest.head? from if_pos hn] at h
      exact ⟨⟨n, List.mem_cons_self, hn⟩, List.mem_cons_of_mem n (List.mem_of_head? h)⟩
    · rw [show nodeBehind key start stop (n :: rest) = nodeBehind key start stop rest from
        if_neg hn] at h
      obtain ⟨⟨k, hk, hnamed⟩, hm⟩ := ih h
      exact ⟨⟨k, List.mem_cons_of_mem n hk, hnamed⟩, List.mem_cons_of_mem n hm⟩

end

/-- A well-formed registration: the first key of the object is `IOTDEV`, and its value, at `q`,
is an object. -/
structure RegisterPayload (doc : Document) (w : Value) (q : ℕ) : Prop where
  member : doc.value.member (ascii "IOTDEV") doc.lead.val.length = some (w, q)
  first : doc.value.wordsBeforeMember (ascii "IOTDEV") = []
  object : (w.root q).kind = .object

/-- The text of the object's own member. -/
def ownText (key : List Byte) (w : Value) (q : ℕ) : Option (List Byte) :=
  (w.member key q).map fun found => (found.1.root found.2).text

/-- The device is stored with the texts of both members, or nothing is changed. -/
def Right (devices : Devices) (iotip : CharArray IP_ADDR_SIZE) (d : JsonData) (socketIndex : ℤ)
    (tempStr : List Byte) : Option (List Byte) → Option (List Byte) → Prop
  | some devID, some funGroup => ∃ newDevice i,
      newDeviceInfo iotip d socketIndex tempStr = .ok newDevice ∧ newDevice.devID = devID ∧
        newDevice.funGroup = funGroup ∧ addNewDevice devices iotip d socketIndex tempStr =
          .ok (Function.update devices i (some newDevice))
  | _, _ => addNewDevice devices iotip d socketIndex tempStr = .ok devices

/-- What stands behind the first word of the object with this spelling. -/
def valueBehind (key : List Byte) (doc : Document) (w : Value) (q : ℕ) : Option Node :=
  nodeBehind key (w.root q).start (w.root q).stop doc.nodes

/-- No word of the object has this spelling, or what stands behind the first one fits. -/
def FitsBehind (key : List Byte) (doc : Document) (w : Value) (q : ℕ) : Prop :=
  (∀ n ∈ doc.nodes, ¬ Named key (w.root q).start (w.root q).stop n) ∨
    ∃ g, valueBehind key doc w q = some g ∧ g.text.length < Management.tempBufferSize

/-- The record of a device with this ID, under which its group is filed if it is missing. -/
def recordOf (ip : CharArray IP_ADDR_SIZE) (socketIndex : ℤ) (doc : Document) (w : Value) (q : ℕ)
    (devID : List Byte) : IoTDeviceInfo where
  ip := ip
  socketIndex := socketIndex
  funGroup := ((valueBehind (ascii "FunctionGroup") doc w q).map Node.text).getD devID
  devID := devID
  devDesc := doc.text
  proxied := 0

/-- The first words of the object that are spelled like the keys have short texts behind them.
With both members these are the members' own texts, and there is a slot for the device; with a
member missing the record is already there, or there is no slot. -/
def Meets (devices : Devices) (ip : CharArray IP_ADDR_SIZE) (socketIndex : ℤ) (doc : Document)
    (w : Value) (q : ℕ) : Prop :=
  ∃ v, valueBehind (ascii "DeviceID") doc w q = some v ∧
    v.text.length < Management.tempBufferSize ∧ FitsBehind (ascii "FunctionGroup") doc w q ∧
    match ownText (ascii "DeviceID") w q, ownText (ascii "FunctionGroup") w q with
    | some devID, some funGroup => v.text = devID ∧
        (recordOf ip socketIndex doc w q v.text).funGroup = funGroup ∧
        SlotTable.HasRoom IoTDeviceInfo.devID devices v.text
    | _, _ => ¬ SlotTable.HasRoom IoTDeviceInfo.devID devices v.text ∨
        SlotTable.Stored IoTDeviceInfo.devID devices (recordOf ip socketIndex doc w q v.text)

section

variable {doc : Document} {w : Value} {q : ℕ} {key : List Byte} {d : JsonData}

theorem RegisterPayload.subvalue (h : RegisterPayload doc w q) :
    (w, q) ∈ doc.value.subvalues doc.lead.val.length :=
  (Json.member_nodes h.member).1

theorem root_start (h : (w.root q).kind = .object) : (w.root q).start = q := by
  cases w with
  | primitive text => cases h
  | string text => cases h
  | container keyed blank items => rfl

/-- No array begins where the object begins. -/
theorem RegisterPayload.no_array (h : RegisterPayload doc w q) {n : Node} (hn : n ∈ doc.nodes)
    (hkind : n.kind = .array) : n.start ≠ (w.root q).start := by
  obtain ⟨-, before, after, hblock, hbefore, hafter⟩ := doc.value.subvalues_block h.subvalue
  obtain ⟨tail, htail⟩ := w.nodes_eq_root q
  have hahead := w.nodes_ahead q
  rw [htail] at hblock hahead
  have hobject := h.object
  have hstart := root_start hobject
  rw [Document.nodes, hblock] at hn
  rcases List.mem_append.mp hn with hn | hn
  · have hlt := hbefore n hn
    omega
  rcases List.mem_append.mp hn with hn | hn
  · rcases List.mem_cons.mp hn with rfl | hn
    · rw [hkind] at hobject
      cases hobject
    · exact ((List.pairwise_cons.mp hahead).1 n hn).1.ne'
  · have hlt := hafter n hn
    omega

/-- The lookup of a key is the search for it in the object. -/
theorem RegisterPayload.lookupOf_eq (h : RegisterPayload doc w q) {first : Token}
    (hfirst : rangeOf first = rangeAt doc.value doc.lead.val.length) :
    lookupOf doc.text (ascii "IOTDEV") key first (tableOf doc) =
      hitOf doc.text key ⟨(w.root q).start, (w.root q).stop⟩ (tableOf doc) := by
  obtain ⟨m, hhit, hright, -⟩ := hitOf_member (doc.value.self_mem_subvalues doc.lead.val.length)
    h.member
  rw [hright (by rw [h.first]; exact List.not_mem_nil)] at hhit
  rw [lookupOf, hfirst, hhit]
  rfl

theorem RegisterPayload.hitOf_value (h : RegisterPayload doc w q) {m : Node}
    (hm : valueBehind key doc w q = some m) :
    hitOf doc.text key ⟨(w.root q).start, (w.root q).stop⟩ (tableOf doc) = .value (tokenOf m) ∧
      tokenText doc.text (tokenOf m) = m.text :=
  ⟨(hitOf_nodes (fun _ hn => hn) (fun _ => h.no_array)).1 m hm,
    tokenText_node (nodeBehind_mem hm).2⟩

theorem RegisterPayload.hitOf_none (h : RegisterPayload doc w q)
    (hnone : valueBehind key doc w q = none) :
    hitOf doc.text key ⟨(w.root q).start, (w.root q).stop⟩ (tableOf doc) = .behind ∧
        (∃ n ∈ doc.nodes, Named key (w.root q).start (w.root q).stop n) ∨
      hitOf doc.text key ⟨(w.root q).start, (w.root q).stop⟩ (tableOf doc) = .missing ∧
        ∀ n ∈ doc.nodes, ¬ Named key (w.root q).start (w.root q).stop n :=
  (hitOf_nodes (fun _ hn => hn) (fun _ => h.no_array)).2 hnone

/-- The string that the lookup leaves in the scratch array. -/
theorem RegisterPayload.read_eq (h : RegisterPayload doc w q) (before : List Byte) :
    (hitOf doc.text key ⟨(w.root q).start, (w.root q).stop⟩ (tableOf doc)).read doc.text before =
      ((valueBehind key doc w q).map Node.text).getD before := by
  cases hbehind : valueBehind key doc w q with
  | some m =>
    obtain ⟨hhit, htext⟩ := h.hitOf_value hbehind
    rw [hhit]
    exact htext
  | none =>
    rcases h.hitOf_none hbehind with ⟨hhit, -⟩ | ⟨hhit, -⟩
    · rw [hhit]
      rfl
    · rw [hhit]
      rfl

/-- What the lookup of the key finds fits the scratch array. -/
theorem RegisterPayload.fits_iff (h : RegisterPayload doc w q) :
    (hitOf doc.text key ⟨(w.root q).start, (w.root q).stop⟩ (tableOf doc)).Fits doc.text
      Management.tempBufferSize ↔ FitsBehind key doc w q := by
  cases hbehind : valueBehind key doc w q with
  | some m =>
    obtain ⟨hhit, htext⟩ := h.hitOf_value hbehind
    obtain ⟨⟨n, hn, hnamed⟩, -⟩ := nodeBehind_mem hbehind
    rw [hhit, Hit.Fits, htext]
    constructor
    · exact fun hshort => .inr ⟨m, hbehind, hshort⟩
    · rintro (hnone | ⟨g, hg, hshort⟩)
      · exact absurd hnamed (hnone n hn)
      · rw [hbehind] at hg
        obtain rfl := Option.some.inj hg
        exact hshort
  | none =>
    rcases h.hitOf_none hbehind with ⟨hhit, n, hn, hnamed⟩ | ⟨hhit, hnone⟩
    · rw [hhit]
      refine iff_of_false not_false ?_
      rintro (hnone | ⟨g, hg, -⟩)
      · exact hnone n hn hnamed
      · rw [hbehind] at hg
        cases hg
    · rw [hhit]
      exact iff_of_true trivial (.inl hnone)

/-- A registration finds what it needs exactly if the words it looks for are followed by short
texts. -/
theorem RegisterPayload.registers_iff (h : RegisterPayload doc w q) {first : Token}
    (hfirst : rangeOf first = rangeAt doc.value doc.lead.val.length) :
    Registers doc.text first (tableOf doc) ↔
      (∃ v, valueBehind (ascii "DeviceID") doc w q = some v ∧
        v.text.length < Management.tempBufferSize) ∧
      FitsBehind (ascii "FunctionGroup") doc w q := by
  constructor
  · rintro ⟨⟨t, ht, hshort⟩, hgroup⟩
    rw [h.lookupOf_eq hfirst] at ht hgroup
    refine ⟨?_, h.fits_iff.mp hgroup⟩
    cases hbehind : valueBehind (ascii "DeviceID") doc w q with
    | some m =>
      obtain ⟨hhit, htext⟩ := h.hitOf_value hbehind
      rw [hhit] at ht
      obtain rfl := Hit.value.inj ht
      rw [htext] at hshort
      exact ⟨m, rfl, hshort⟩
    | none =>
      rcases h.hitOf_none hbehind with ⟨hhit, -⟩ | ⟨hhit, -⟩
      · rw [hhit] at ht
        cases ht
      · rw [hhit] at ht
        cases ht
  · rintro ⟨⟨v, hv, hshort⟩, hgroup⟩
    obtain ⟨hhit, htext⟩ := h.hitOf_value hv
    refine ⟨⟨tokenOf v, ?_, by rw [htext]; exact hshort⟩, ?_⟩
    · rw [h.lookupOf_eq hfirst, hhit]
    · rw [h.lookupOf_eq hfirst]
      exact h.fits_iff.mpr hgroup

/-- The record that is built, whatever the scratch array held. -/
theorem RegisterPayload.newDeviceInfo_eq (h : RegisterPayload doc w q) (hd : Loaded d doc)
    {iotip ip : CharArray IP_ADDR_SIZE} {source : List Byte} (hsource : iotip.text = .ok source)
    (hip : CharArray.ofText IP_ADDR_SIZE source = .ok ip) {v : Node}
    (hv : valueBehind (ascii "DeviceID") doc w q = some v)
    (hshort : v.text.length < Management.tempBufferSize)
    (hgroup : FitsBehind (ascii "FunctionGroup") doc w q)
    (tempStr : CharArray Management.tempBufferSize) (socketIndex : ℤ) :
    newDeviceInfo iotip d socketIndex tempStr.bytes =
      .ok (recordOf ip socketIndex doc w q v.text) := by
  obtain ⟨tail, htail⟩ := doc.value.nodes_eq_root doc.lead.val.length
  have hcons : tableOf doc = tokenOf (doc.value.root doc.lead.val.length) :: tail.map tokenOf := by
    rw [tableOf, Document.nodes, htail, List.map_cons]
  have hfirst : rangeOf (tokenOf (doc.value.root doc.lead.val.length)) =
      rangeAt doc.value doc.lead.val.length := rfl
  obtain ⟨hhit, htext⟩ := h.hitOf_value hv
  have hshows := hd.shows_text
  have hsearched : searched d.tokenSize (tokenOf (doc.value.root doc.lead.val.length) ::
      tail.map tokenOf) = tableOf doc := by
    rw [← hcons]
    exact hd.searched_eq
  rw [hcons] at hshows
  have hlookup : ∀ key, lookupOf doc.text (ascii "IOTDEV") key
      (tokenOf (doc.value.root doc.lead.val.length)) (searched d.tokenSize
        (tokenOf (doc.value.root doc.lead.val.length) :: tail.map tokenOf)) =
      hitOf doc.text key ⟨(w.root q).start, (w.root q).stop⟩ (tableOf doc) := by
    intro key
    rw [hsearched, h.lookupOf_eq hfirst]
  have hdevID : cString 0 ((lookupOf doc.text (ascii "IOTDEV") (ascii "DeviceID")
      (tokenOf (doc.value.root doc.lead.val.length)) (searched d.tokenSize
        (tokenOf (doc.value.root doc.lead.val.length) :: tail.map tokenOf))).store doc.text
          tempStr.bytes) = .ok v.text := by
    rw [hlookup, hhit, Hit.store, ← htext]
    exact cString_append 0 _ _ (tokenText_noNul doc.zero_notMem_text)
  rw [PackageOnly.newDeviceInfo_eq hshows (by rw [hlookup, hhit, Hit.Fits, htext]; exact hshort)
    (by rw [hlookup]; exact h.fits_iff.mpr hgroup) hsource hip tempStr hdevID, registered, hlookup,
    h.read_eq]
  rfl

end

theorem addNewDevice_eq {devices : Devices} {iotip : CharArray IP_ADDR_SIZE} {d : JsonData}
    {socketIndex : ℤ} {tempStr : List Byte} {newDevice : IoTDeviceInfo}
    (h : newDeviceInfo iotip d socketIndex tempStr = .ok newDevice) :
    addNewDevice devices iotip d socketIndex tempStr = .ok (storeDevice devices newDevice) := by
  rw [addNewDevice, h]
  rfl

/-- A registration that did what it should has built a record. -/
theorem Right.exists_newDeviceInfo {devices : Devices} {iotip : CharArray IP_ADDR_SIZE}
    {d : JsonData} {socketIndex : ℤ} {tempStr : List Byte} {devID funGroup : Option (List Byte)}
    (h : Right devices iotip d socketIndex tempStr devID funGroup) :
    ∃ newDevice, newDeviceInfo iotip d socketIndex tempStr = .ok newDevice := by
  have hstored : addNewDevice devices iotip d socketIndex tempStr = .ok devices →
      ∃ newDevice, newDeviceInfo iotip d socketIndex tempStr = .ok newDevice := by
    intro h
    obtain ⟨newDevice, hnew, -⟩ := bind_eq_ok.mp h
    exact ⟨newDevice, hnew⟩
  cases devID with
  | none => exact hstored h
  | some devID =>
    cases funGroup with
    | none => exact hstored h
    | some funGroup =>
      obtain ⟨newDevice, -, hnew, -⟩ := h
      exact ⟨newDevice, hnew⟩

section

variable {doc : Document} {w : Value} {q : ℕ} {devices : Devices}
  {iotip ip : CharArray IP_ADDR_SIZE} {source : List Byte} {socketIndex : ℤ}

/-- The payload in arrays in which every look behind it ends in a fault. -/
theorem exists_far (hshort : doc.text.length < MAXCONTENTSIZE)
    (hfew : doc.nodes.length ≤ MAXTOKENSIZE) :
    ∃ d, Loaded d doc ∧ FarBehind d (tableOf doc) := by
  obtain ⟨d, -, hshows, hcount, htokens⟩ := initToken_shows (d := farObject.data)
    doc.zero_notMem_text rfl (arraysOf_content hshort) farObject.tokenRoom
    (jsmnParse_document doc hfew)
  exact ⟨d, ⟨hshows, hcount⟩, farBehind_of_farObject htokens⟩

/-- The record of the words that the lookups meet is right exactly under the last part of the
condition. -/
theorem right_recordOf_iff {d : JsonData} {tempStr : List Byte} {newDevice : IoTDeviceInfo}
    {devID funGroup : Option (List Byte)}
    (hbuilt : newDeviceInfo iotip d socketIndex tempStr = .ok newDevice) :
    Right devices iotip d socketIndex tempStr devID funGroup ↔
      match devID, funGroup with
      | some devID, some funGroup => newDevice.devID = devID ∧ newDevice.funGroup = funGroup ∧
          SlotTable.HasRoom IoTDeviceInfo.devID devices newDevice.devID
      | _, _ => ¬ SlotTable.HasRoom IoTDeviceInfo.devID devices newDevice.devID ∨
          SlotTable.Stored IoTDeviceInfo.devID devices newDevice := by
  have hadd : addNewDevice devices iotip d socketIndex tempStr =
      .ok (storeDevice devices newDevice) := addNewDevice_eq hbuilt
  have hkept : addNewDevice devices iotip d socketIndex tempStr = .ok devices ↔
      ¬ SlotTable.HasRoom IoTDeviceInfo.devID devices newDevice.devID ∨
        SlotTable.Stored IoTDeviceInfo.devID devices newDevice := by
    rw [hadd, Except.ok.injEq, storeDevice_eq_put]
    exact SlotTable.put_eq_self_iff
  cases devID with
  | none => exact hkept
  | some devID =>
    cases funGroup with
    | none => exact hkept
    | some funGroup =>
      constructor
      · rintro ⟨record, i, hrecord, hid, hgroup, hupdate⟩
        rw [hbuilt] at hrecord
        obtain rfl := Except.ok.inj hrecord
        refine ⟨hid, hgroup, ?_⟩
        by_contra hfull
        rw [hadd, RegistryMap.storeDevice_of_full hfull] at hupdate
        have hsame := SlotTable.update_eq_self_iff.mp (Except.ok.inj hupdate).symm
        exact hfull (.inl ⟨i, _, hsame, rfl⟩)
      · rintro ⟨hid, hgroup, hroom⟩
        obtain ⟨i, hput⟩ := SlotTable.exists_put hroom
        rw [← storeDevice_eq_put] at hput
        exact ⟨newDevice, i, hbuilt, hid, hgroup, by rw [hadd, hput]⟩

/-- A well-formed registration is handled right, whatever the arrays of the call held before,
exactly under the condition. -/
theorem right_iff (hpayload : RegisterPayload doc w q) (hsource : iotip.text = .ok source)
    (hip : CharArray.ofText IP_ADDR_SIZE source = .ok ip)
    (hshort : doc.text.length < MAXCONTENTSIZE) (hfew : doc.nodes.length ≤ MAXTOKENSIZE) :
    (∀ d, Loaded d doc → ∀ tempStr : CharArray Management.tempBufferSize,
      Right devices iotip d socketIndex tempStr.bytes (ownText (ascii "DeviceID") w q)
        (ownText (ascii "FunctionGroup") w q)) ↔ Meets devices ip socketIndex doc w q := by
  have hbuilt : ∀ d, Loaded d doc → ∀ (tempStr : CharArray Management.tempBufferSize) v,
      valueBehind (ascii "DeviceID") doc w q = some v →
      v.text.length < Management.tempBufferSize → FitsBehind (ascii "FunctionGroup") doc w q →
      newDeviceInfo iotip d socketIndex tempStr.bytes =
        .ok (recordOf ip socketIndex doc w q v.text) := fun d hd tempStr v hv hfits hgroup =>
    hpayload.newDeviceInfo_eq hd hsource hip hv hfits hgroup tempStr socketIndex
  constructor
  · intro hall
    obtain ⟨d, hd, hfar⟩ := exists_far hshort hfew
    have hright := hall d hd farLocals.tempStr
    obtain ⟨newDevice, hnew⟩ := hright.exists_newDeviceInfo
    -- a record that is built in spite of what the arrays held has found its words
    obtain ⟨tail, htail⟩ := doc.value.nodes_eq_root doc.lead.val.length
    have hcons : tableOf doc =
        tokenOf (doc.value.root doc.lead.val.length) :: tail.map tokenOf := by
      rw [tableOf, Document.nodes, htail, List.map_cons]
    have hshows := hd.shows_text
    have hsearched := hd.searched_eq
    rw [hcons] at hshows hfar
    have hregisters := registers_of_far hshows hfar hnew
    rw [← hcons, hsearched] at hregisters
    obtain ⟨⟨v, hv, hfits⟩, hgroup⟩ := (hpayload.registers_iff rfl).mp hregisters
    exact ⟨v, hv, hfits, hgroup,
      (right_recordOf_iff (hbuilt d hd farLocals.tempStr v hv hfits hgroup)).mp hright⟩
  · rintro ⟨v, hv, hfits, hgroup, hlast⟩ d hd tempStr
    exact (right_recordOf_iff (hbuilt d hd tempStr v hv hfits hgroup)).mpr hlast

/-- A payload that the tokenizer refuses is never handled right: both lookups leave the scratch
array as it was. -/
theorem refused_not_kept {text : List Byte} {n : ℤ} {tokens : List Token}
    (hnul : (0 : Byte) ∉ text) (hshort : text.length < MAXCONTENTSIZE)
    (hparse : jsmnParse text MAXTOKENSIZE = .ok (n, tokens)) (hrefused : n < 0) :
    ¬ ∀ d, Shows d text tokens → d.tokenSize = n →
      ∀ tempStr : CharArray Management.tempBufferSize,
        addNewDevice devices iotip d socketIndex tempStr.bytes = .ok devices := by
  intro hall
  obtain ⟨d, -, hshows, hcount, -⟩ := initToken_shows (d := farObject.data) hnul rfl
    (arraysOf_content hshort) farObject.tokenRoom hparse
  have hkept := hall d hshows hcount farLocals.tempStr
  obtain ⟨newDevice, hnew, -⟩ := bind_eq_ok.mp hkept
  obtain ⟨ipText, -, hnew⟩ := bind_eq_ok.mp hnew
  obtain ⟨ip, -, hnew⟩ := bind_eq_ok.mp hnew
  obtain ⟨afterID, hID, hnew⟩ := bind_eq_ok.mp hnew
  obtain ⟨devID, hIDText, -⟩ := bind_eq_ok.mp hnew
  obtain ⟨range, -, hvalue⟩ := bind_eq_ok.mp hID
  -- the searches look at no token
  have hnone : d.tokenSize.toNat = 0 := by
    rw [hcount]
    omega
  have hsearch : ∀ key range result,
      searchJsonDataInRange key range d result = .ok ⟨-1, range, result⟩ := by
    intro key range result
    rw [searchJsonDataInRange, hnone, searchLoop]
  simp only [findValue, hsearch, ok_bind, Option.getD_some, Except.ok.injEq] at hvalue
  rw [← hvalue] at hIDText
  exact cString_ones hIDText

end

/-- For every registry, sender and socket. A well-formed registration of at most 1023 characters
and 128 tokens is handled as it should, whatever the arrays of the call held before, exactly
under the condition; a text that the tokenizer refuses never leaves the registry alone for every
content of the scratch array. -/
theorem registration_iff {devices : Devices} {iotip ip : CharArray IP_ADDR_SIZE}
    {source : List Byte} {socketIndex : ℤ} (hsource : iotip.text = .ok source)
    (hip : CharArray.ofText IP_ADDR_SIZE source = .ok ip) :
    (∀ doc w q, RegisterPayload doc w q → doc.text.length < MAXCONTENTSIZE →
      doc.nodes.length ≤ MAXTOKENSIZE →
      ((∀ d, Loaded d doc → ∀ tempStr : CharArray Management.tempBufferSize,
        Right devices iotip d socketIndex tempStr.bytes (ownText (ascii "DeviceID") w q)
          (ownText (ascii "FunctionGroup") w q)) ↔ Meets devices ip socketIndex doc w q)) ∧
    ∀ text n tokens, (0 : Byte) ∉ text → text.length < MAXCONTENTSIZE →
      jsmnParse text MAXTOKENSIZE = .ok (n, tokens) → n < 0 →
      ¬ ∀ d, Shows d text tokens → d.tokenSize = n →
        ∀ tempStr : CharArray Management.tempBufferSize,
          addNewDevice devices iotip d socketIndex tempStr.bytes = .ok devices :=
  ⟨fun _ _ _ hpayload hshort hfew => right_iff hpayload hsource hip hshort hfew,
    fun _ _ _ hnul hshort hparse hrefused => refused_not_kept hnul hshort hparse hrefused⟩

def textValue (c : Byte) (hc : isQuoted [c]) : Value := .string ⟨[c], hc⟩

def iotdevKey : Label true := .key ⟨ascii "IOTDEV", by decide⟩ noBlank noBlank

def idKey : Label true := .key ⟨ascii "DeviceID", by decide⟩ noBlank noBlank

def groupKey : Label true := .key ⟨ascii "FunctionGroup", by decide⟩ noBlank noBlank

/-- A registration whose object has these members. -/
def registerDocument (items : Json (.items true)) : Document :=
  ⟨noBlank, .container true noBlank
    (.cons noBlank iotdevKey (.container true noBlank items) noBlank (.nil true)), noBlank⟩

/-- The members of a device with this ID and the group `B`. -/
def bothItems (c : Byte) (hc : isQuoted [c]) : Json (.items true) :=
  .cons noBlank idKey (textValue c hc) noBlank
    (.cons noBlank groupKey (textValue 66 rfl) noBlank (.nil true))

def idItems : Json (.items true) := .cons noBlank idKey (textValue 65 rfl) noBlank (.nil true)

def addressOne : CharArray IP_ADDR_SIZE := ⟨49 :: List.replicate 14 0, rfl⟩

/-- A registration with both members, and a text that breaks off. -/
theorem registration_both :
    (registerDocument (bothItems 65 rfl)).text =
        ascii "\x7b\"IOTDEV\":\x7b\"DeviceID\":\"A\",\"FunctionGroup\":\"B\"\x7d\x7d" ∧
      (∀ d, Loaded d (registerDocument (bothItems 65 rfl)) →
        ∀ tempStr : CharArray Management.tempBufferSize,
          Right noDevices addressOne d 0 tempStr.bytes (some (ascii "A")) (some (ascii "B"))) ∧
      ¬ ∀ d, Shows d [leftBrace] [⟨.object, 0, -1, 0⟩] → d.tokenSize = -3 →
        ∀ tempStr : CharArray Management.tempBufferSize,
          addNewDevice noDevices addressOne d 0 tempStr.bytes = .ok noDevices := by
  have hsource : addressOne.text = .ok [49] := rfl
  have hip : CharArray.ofText IP_ADDR_SIZE [49] = .ok addressOne := rfl
  obtain ⟨hpayload, hrefused⟩ :=
    @registration_iff noDevices addressOne addressOne [49] 0 hsource hip
  have hmeets : Meets noDevices addressOne 0 (registerDocument (bothItems 65 rfl))
      (.container true noBlank (bothItems 65 rfl)) 10 := by
    refine ⟨⟨.string, 23, [65], 0⟩, by decide, by decide, .inr ⟨⟨.string, 43, [66], 0⟩,
      by decide, by decide⟩, rfl, by decide, .inr ⟨0, rfl⟩⟩
  exact ⟨by decide, (hpayload (registerDocument (bothItems 65 rfl))
    (.container true noBlank (bothItems 65 rfl)) 10
    ⟨rfl, rfl, rfl⟩ (by decide) (by decide)).mpr hmeets,
    hrefused [leftBrace] (-3) [⟨.object, 0, -1, 0⟩] (by decide) (by decide) rfl (by decide)⟩

/-- A registration without a group is stored under the ID as its group. -/
theorem registration_id :
    (registerDocument idItems).text = ascii "\x7b\"IOTDEV\":\x7b\"DeviceID\":\"A\"\x7d\x7d" ∧
      ownText (ascii "FunctionGroup") (.container true noBlank idItems) 10 = none ∧
      (do let d ← initToken (arraysOf (registerDocument idItems).text)
          let devices ← addNewDevice noDevices addressOne d 0 (List.replicate 200 0)
          .ok ((devices 0).map fun newDevice : IoTDeviceInfo =>
            (newDevice.devID, newDevice.funGroup))) =
        .ok (some (ascii "A", ascii "A")) :=
  ⟨by decide, rfl, by decide +kernel⟩

end IoTRepublic.Registration
