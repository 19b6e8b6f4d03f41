import IoTRepublic.DiscoverReply
import IoTRepublic.RegistryMap
import Mathlib.Data.List.Sort

/-!
What the discovery lists say. A list is written as addresses and descriptions
closed by separators, so it is read back by splitting at these. It names the
listed devices in the order of their slots, and because every registered device
is proxied or not, the two shorter lists are the long one taken apart.
-/
namespace IoTRepublic.DiscoveryLists

open CheckedArray Delimited Package JsFileParser Registry RegistryMap Management DiscoverReply Runs

/-- What a list says about one slot. -/
structure Entry where
  slot : DeviceIndex
  address : List Byte
  description : List Byte
  deriving DecidableEq

def fieldsOf (entries : List Entry) : List (List Byte) :=
  entries.flatMap (fun e => [e.address, e.description])

/-- The entry is about a registered device that is wanted, is not the requester and is no user
interface. -/
def IsEntry (devices : Devices) (wanted : IoTDeviceInfo → Bool) (r : List Byte) (e : Entry) :
    Prop :=
  ∃ d, devices e.slot = some d ∧ d.ip.text = .ok e.address ∧ d.devDesc = e.description ∧
    e.address ≠ r ∧ wanted d ∧ d.funGroup ≠ ascii "UI"

/-- The entries are those of all these devices, in the order of their slots. -/
structure Lists (devices : Devices) (wanted : IoTDeviceInfo → Bool) (r : List Byte)
    (entries : List Entry) : Prop where
  order : entries.Pairwise (fun e e' => e.slot < e'.slot)
  mem_iff : ∀ e, e ∈ entries ↔ IsEntry devices wanted r e

/-- Whatever the buffer, if the entries fit it with their separators, they are what stands
between the separators of the written bytes. -/
def Writes (encode : List Byte → Exec (List Byte × ℕ)) (entries : List Entry) : Prop :=
  ∀ buffer : List Byte, (joinFields SplitSymble (fieldsOf entries)).length ≤ buffer.length →
    ∃ out n, encode buffer = .ok (out, n) ∧
      (out.take n).splitOn SplitSymble = fieldsOf entries ++ [[]]

/-- What holds of every record in a reachable table. -/
structure Sound (d : IoTDeviceInfo) : Prop where
  address : HasAddress d
  description : (0 : Byte) ∉ d.devDesc
  flag : d.proxied = 0 ∨ d.proxied = 1

/-- The entry of a slot, if it has one. -/
def entryOf (devices : Devices) (wanted : IoTDeviceInfo → Bool) (r : List Byte)
    (i : DeviceIndex) : Option Entry :=
  match devices i with
  | none => none
  | some device =>
    match device.ip.text with
    | .error _ => none
    | .ok ip =>
      if ip ≠ r ∧ wanted device ∧ device.funGroup ≠ ascii "UI" then
        some ⟨i, ip, device.devDesc⟩
      else none

def listing (devices : Devices) (wanted : IoTDeviceInfo → Bool) (r : List Byte) : List Entry :=
  (List.finRange MAXDEVICECOUNT).filterMap (entryOf devices wanted r)

section

variable {devices : Devices} {wanted : IoTDeviceInfo → Bool} {r ip : List Byte}
  {i : DeviceIndex} {d : IoTDeviceInfo}

theorem entryOf_none (hi : devices i = none) : entryOf devices wanted r i = none := by
  unfold entryOf
  rw [hi]

theorem entryOf_some (hi : devices i = some d) (hip : d.ip.text = .ok ip) :
    entryOf devices wanted r i =
      if ip ≠ r ∧ wanted d ∧ d.funGroup ≠ ascii "UI" then some ⟨i, ip, d.devDesc⟩ else none := by
  unfold entryOf
  simp only [hi, hip]

theorem entryOf_eq_some {e : Entry} :
    entryOf devices wanted r i = some e ↔ e.slot = i ∧ IsEntry devices wanted r e := by
  constructor
  · intro h
    cases hi : devices i with
    | none =>
      rw [entryOf_none hi] at h
      cases h
    | some d =>
      cases hip : d.ip.text with
      | error fault =>
        simp only [entryOf, hi, hip, reduceCtorEq] at h
      | ok ip =>
        rw [entryOf_some hi hip] at h
        split at h
        · rename_i hlisted
          obtain rfl := Option.some.inj h
          exact ⟨rfl, d, hi, hip, rfl, hlisted⟩
        · cases h
  · intro ⟨hslot, d, hd, hip, hdesc, hlisted⟩
    rw [hslot] at hd
    rw [entryOf_some hd hip, if_pos hlisted, hdesc, ← hslot]

theorem lists_listing (devices : Devices) (wanted : IoTDeviceInfo → Bool) (r : List Byte) :
    Lists devices wanted r (listing devices wanted r) := by
  constructor
  · apply List.pairwise_filterMap.mpr
    apply (List.pairwise_lt_finRange MAXDEVICECOUNT).imp
    intro i j hij e he e' he'
    rw [(entryOf_eq_some.mp he).1, (entryOf_eq_some.mp he').1]
    exact hij
  · intro e
    constructor
    · intro he
      obtain ⟨i, -, hi⟩ := List.mem_filterMap.mp he
      exact (entryOf_eq_some.mp hi).2
    · intro he
      exact List.mem_filterMap.mpr
        ⟨e.slot, List.mem_finRange _, entryOf_eq_some.mpr ⟨rfl, he⟩⟩

/-- A text and its separator are one block. -/
theorem putText_eq {buffer text : List Byte} {offset : ℕ}
    (hroom : offset + (text ++ [SplitSymble]).length ≤ buffer.length) :
    putText buffer text offset = .ok (splice buffer offset (text ++ [SplitSymble]),
      offset + (text ++ [SplitSymble]).length) := by
  rw [List.length_append, List.length_singleton] at hroom ⊢
  have hset : (splice buffer offset text).set (offset + text.length) SplitSymble =
      splice buffer offset (text ++ [SplitSymble]) := by
    rw [splice_singleton _ _ _ (by rw [splice_length _ _ _ (by omega)]; omega),
      splice_splice _ _ _ _ (by omega)]
  rw [putText_eq_ok.mpr ⟨hroom, rfl⟩, hset]
  rfl

/-- Two texts written one behind the other. -/
theorem putText_pair {buffer text text' : List Byte} {offset : ℕ}
    (hroom : offset + (joinFields SplitSymble [text, text']).length ≤ buffer.length) :
    ∃ s, putText buffer text offset = .ok s ∧ putText s.1 text' s.2 =
      .ok (splice buffer offset (joinFields SplitSymble [text, text']),
        offset + (joinFields SplitSymble [text, text']).length) := by
  have hjoin : joinFields SplitSymble [text, text'] =
      (text ++ [SplitSymble]) ++ (text' ++ [SplitSymble]) := by
    simp
  rw [hjoin, List.length_append] at hroom ⊢
  refine ⟨_, putText_eq (by omega), ?_⟩
  rw [putText_eq (by rw [splice_length _ _ _ (by omega)]; omega),
    splice_splice _ _ _ _ (by omega), Nat.add_assoc]

theorem fieldsOf_cons (i : DeviceIndex) (ip desc : List Byte) (entries : List Entry) :
    joinFields SplitSymble (fieldsOf (⟨i, ip, desc⟩ :: entries)) =
      joinFields SplitSymble [ip, desc] ++ joinFields SplitSymble (fieldsOf entries) := by
  unfold fieldsOf joinFields
  rw [List.flatMap_cons, List.flatMap_append]

/-- The loop writes the entries of the slots one behind the other. -/
theorem encodeDevices_eq (haddress : ∀ i d, devices i = some d → HasAddress d)
    (indices : List DeviceIndex) (buffer : List Byte) (offset : ℕ) {bytes : List Byte}
    (hbytes : bytes = joinFields SplitSymble
      (fieldsOf (indices.filterMap (entryOf devices wanted r))))
    (hroom : offset + bytes.length ≤ buffer.length) :
    encodeDevices wanted r (indices.map devices) buffer offset =
      .ok (splice buffer offset bytes, offset + bytes.length) := by
  induction indices generalizing buffer offset bytes with
  | nil =>
    subst hbytes
    simp [encodeDevices, fieldsOf]
  | cons i indices ih =>
    rw [List.map_cons]
    cases hi : devices i with
    | none =>
      have hnone : entryOf devices wanted r i = none := entryOf_none hi
      rw [List.filterMap_cons_none hnone] at hbytes
      exact ih buffer offset hbytes hroom
    | some d =>
      obtain ⟨ip, hip⟩ := haddress i d hi
      have hentry : entryOf devices wanted r i = _ := entryOf_some hi hip
      rw [encodeDevices, hip, ok_bind]
      by_cases hlisted : ip ≠ r ∧ wanted d ∧ d.funGroup ≠ ascii "UI"
      · rw [if_pos hlisted] at hentry ⊢
        rw [List.filterMap_cons_some hentry, fieldsOf_cons] at hbytes
        subst hbytes
        rw [List.length_append] at hroom
        have hpair : offset + (joinFields SplitSymble [ip, d.devDesc]).length ≤ buffer.length := by
          omega
        obtain ⟨s, hfirst, hsecond⟩ := putText_pair hpair
        rw [hfirst, ok_bind]
        dsimp only
        rw [hsecond, ok_bind]
        dsimp only
        rw [ih _ _ rfl (by rw [splice_length _ _ _ (by omega)]; omega),
          splice_splice _ _ _ _ (by omega), List.length_append, Nat.add_assoc]
      · rw [if_neg hlisted] at hentry ⊢
        rw [List.filterMap_cons_none hentry] at hbytes
        exact ih buffer offset hbytes hroom

theorem splitOn_joinFields (fields : List (List Byte)) (hsep : ∀ f ∈ fields, SplitSymble ∉ f) :
    (joinFields SplitSymble fields).splitOn SplitSymble = fields ++ [[]] := by
  induction fields with
  | nil => rfl
  | cons f fields ih =>
    rw [joinFields_cons, List.splitOn_append_cons_self_of_not_mem (hsep f List.mem_cons_self),
      ih (fun g hg => hsep g (List.mem_cons_of_mem f hg))]
    rfl

/-- A list with readable addresses and descriptions is read back from its bytes. -/
theorem writes_listing (hsound : ∀ i d, devices i = some d → Sound d)
    (wanted : IoTDeviceInfo → Bool) (r : List Byte) :
    Writes (fun buffer => encodeDevices wanted r (List.ofFn devices) buffer 0)
      (listing devices wanted r) := by
  intro buffer hroom
  have hbytes : joinFields SplitSymble (fieldsOf (listing devices wanted r)) =
      joinFields SplitSymble (fieldsOf
        ((List.finRange MAXDEVICECOUNT).filterMap (entryOf devices wanted r))) := rfl
  have hencode := encodeDevices_eq (fun i d hi => (hsound i d hi).address)
    (List.finRange MAXDEVICECOUNT) buffer 0 hbytes (by omega)
  rw [← List.ofFn_eq_map, Nat.zero_add] at hencode
  refine ⟨_, _, hencode, ?_⟩
  have htake := take_splice buffer 0 (joinFields SplitSymble
    (fieldsOf (listing devices wanted r))) (Nat.zero_le _)
  rw [Nat.zero_add, List.take_zero, List.nil_append] at htake
  rw [htake]
  apply splitOn_joinFields
  intro f hf
  obtain ⟨e, he, hfield⟩ := List.mem_flatMap.mp hf
  obtain ⟨d, hd, hip, hdesc, -⟩ := ((lists_listing devices wanted r).mem_iff e).mp he
  simp only [List.mem_cons, List.not_mem_nil, or_false] at hfield
  rcases hfield with rfl | rfl
  · exact (CharArray.text_eq_ok hip).1
  · rw [← hdesc]
    exact (hsound e.slot d hd).description

theorem IsEntry.unique {wanted' : IoTDeviceInfo → Bool} {e e' : Entry}
    (he : IsEntry devices wanted r e) (he' : IsEntry devices wanted' r e')
    (hslot : e.slot = e'.slot) : e = e' := by
  obtain ⟨d, hd, hip, hdesc, -⟩ := he
  obtain ⟨d', hd', hip', hdesc', -⟩ := he'
  rw [hslot, hd'] at hd
  obtain rfl := Option.some.inj hd
  rw [hip'] at hip
  have haddress := Except.ok.inj hip
  cases e
  cases e'
  simp only [Entry.mk.injEq]
  exact ⟨hslot, haddress.symm, hdesc.symm.trans hdesc'⟩

/-- Two lists that share the devices of a third between them merge into it. -/
theorem Lists.merge {wanted₁ wanted₂ : IoTDeviceInfo → Bool} {all first second : List Entry}
    (hall : Lists devices wanted r all) (hfirst : Lists devices wanted₁ r first)
    (hsecond : Lists devices wanted₂ r second)
    (hsplit : ∀ e, IsEntry devices wanted r e ↔
      IsEntry devices wanted₁ r e ∨ IsEntry devices wanted₂ r e)
    (hdisjoint : ∀ e ∈ first, ∀ e' ∈ second, e.slot ≠ e'.slot) :
    first.merge second (fun e e' => e.slot ≤ e'.slot) = all := by
  have hnodup : ∀ {wanted entries}, Lists devices wanted r entries → entries.Nodup :=
    fun h => h.order.imp (fun hlt heq => absurd hlt (by rw [heq]; exact lt_irrefl _))
  have hsorted : ∀ {wanted entries}, Lists devices wanted r entries →
      entries.Pairwise (fun e e' => decide (e.slot ≤ e'.slot) = true) :=
    fun h => h.order.imp (fun hlt => decide_eq_true hlt.le)
  have hperm : (first.merge second (fun e e' => e.slot ≤ e'.slot)).Perm all := by
    apply (List.merge_perm_append _).trans
    apply (List.perm_ext_iff_of_nodup ?_ (hnodup hall)).mpr
    · intro e
      rw [List.mem_append, hfirst.mem_iff, hsecond.mem_iff, hall.mem_iff]
      exact (hsplit e).symm
    · apply (hnodup hfirst).append (hnodup hsecond)
      intro e he he'
      exact hdisjoint e he e he' rfl
  apply List.Perm.eq_of_pairwise ?_ (List.pairwise_merge ?_ ?_ _ _ (hsorted hfirst)
    (hsorted hsecond)) (hsorted hall) hperm
  · intro e e' he he' hle hge
    have hslot : e.slot = e'.slot := le_antisymm (of_decide_eq_true hle) (of_decide_eq_true hge)
    exact ((hall.mem_iff e).mp (hperm.subset he)).unique ((hall.mem_iff e').mp he') hslot
  · intro e e' e'' h h'
    exact decide_eq_true ((of_decide_eq_true h).trans (of_decide_eq_true h'))
  · intro e e'
    rw [Bool.or_eq_true, decide_eq_true_eq, decide_eq_true_eq]
    exact le_total _ _

end

section

variable {devices after : Devices} {d : IoTDeviceInfo}

/-- A new record is sound. -/
theorem newDeviceInfo_sound {iotip : CharArray IP_ADDR_SIZE} {jsonData : JsonData}
    {socketIndex : ℤ} {tempStr : List Byte}
    (h : newDeviceInfo iotip jsonData socketIndex tempStr = .ok d) : Sound d := by
  obtain ⟨hip, -, hproxied, hdesc, -⟩ := newDeviceInfo_reads h
  obtain ⟨ipText, hipText, -⟩ := bind_eq_ok.mp h
  exact ⟨⟨ipText, hip.trans hipText⟩, (cString_eq_ok hdesc).1, .inl hproxied⟩

def Inv (devices : Devices) : Prop :=
  DistinctIds devices ∧ ∀ i d, devices i = some d → Sound d

theorem Inv.changesOnly (hinv : Inv devices) {iotip : List Byte}
    {change : IoTDeviceInfo → Option IoTDeviceInfo}
    (hchange : ∀ d e, Sound d → change d = some e → Sound e)
    (h : ChangesOnly devices iotip change after) : ∀ i d, after i = some d → Sound d := by
  rcases h with rfl | ⟨j, d, hd, -, rfl⟩
  · exact hinv.2
  · intro i e he
    rcases SlotTable.update_eq_some he with ⟨-, hnew⟩ | ⟨-, hold⟩
    · exact hchange d e (hinv.2 j d hd) hnew
    · exact hinv.2 i e hold

theorem Inv.step (hinv : Inv devices) {op : Operation} (hstep : Step devices op after) :
    Inv after := by
  refine ⟨distinctIds_step hinv.1 hstep, ?_⟩
  cases op with
  | addNewDevice iotip jsonData socketIndex tempStr =>
    obtain ⟨d, hnew, hafter⟩ := step_addNewDevice.mp hstep
    rw [hafter]
    intro i e he
    rcases storeDevice_eq_some hinv.1 he with rfl | ⟨hold, -⟩
    · exact newDeviceInfo_sound hnew
    · exact hinv.2 i e hold
  | delDev iotip =>
    rw [step_delDev.mp hstep]
    apply hinv.changesOnly ?_ (deleteDevice_changesOnly devices iotip)
    intro d e _ he
    cases he
  | prxAdd iotip =>
    rw [step_prxAdd.mp hstep]
    apply hinv.changesOnly ?_ (setProxied_changesOnly devices iotip 1)
    intro d e hd he
    obtain rfl := Option.some.inj he
    exact ⟨hd.address, hd.description, .inr rfl⟩
  | prxRmv iotip =>
    rw [step_prxRmv.mp hstep]
    apply hinv.changesOnly ?_ (setProxied_changesOnly devices iotip 0)
    intro d e hd he
    obtain rfl := Option.some.inj he
    exact ⟨hd.address, hd.description, .inl rfl⟩

theorem sound_run {ops : List Operation} (hrun : Run Step noDevices ops devices) :
    ∀ i d, devices i = some d → Sound d := by
  have hstart : Inv noDevices := by
    refine ⟨SlotTable.keyed_empty, ?_⟩
    intro i d h
    cases h
  exact (hrun.invariant Inv (fun _ _ _ hinv hstep => hinv.step hstep) hstart).2

end

/-- In every table that registrations, deletions and proxy commands lead to, for every
requester: the bytes of the list of all devices split at the separators into the addresses and
descriptions of the devices that are not the requester and no user interface, slot by slot;
the lists of the proxied and of the other devices have no slot in common and merge into that
list. -/
theorem discovery_lists {ops : List Operation} {devices : Devices}
    (hrun : Run Step noDevices ops devices) (r : List Byte) :
    ∃ all pxd npx : List Entry,
      Lists devices (fun _ => true) r all ∧
      Writes (fun buffer => encodeAllDevicesExceptOne devices buffer r) all ∧
      Lists devices (fun d => d.proxied = (1 : ℤ)) r pxd ∧
      Writes (fun buffer => encodePxdDevicesExceptOne devices buffer r 1) pxd ∧
      Lists devices (fun d => d.proxied = (0 : ℤ)) r npx ∧
      Writes (fun buffer => encodePxdDevicesExceptOne devices buffer r 0) npx ∧
      (∀ e ∈ pxd, ∀ e' ∈ npx, e.slot ≠ e'.slot) ∧
      pxd.merge npx (fun e e' => e.slot ≤ e'.slot) = all := by
  have hsound := sound_run hrun
  have hall := lists_listing devices (fun _ => true) r
  have hpxd := lists_listing devices (fun d => d.proxied = (1 : ℤ)) r
  have hnpx := lists_listing devices (fun d => d.proxied = (0 : ℤ)) r
  have hdisjoint : ∀ e ∈ listing devices (fun d => d.proxied = (1 : ℤ)) r,
      ∀ e' ∈ listing devices (fun d => d.proxied = (0 : ℤ)) r, e.slot ≠ e'.slot := by
    intro e he e' he' hslot
    obtain ⟨d, hd, -, -, -, hone, -⟩ := (hpxd.mem_iff e).mp he
    obtain ⟨d', hd', -, -, -, hzero, -⟩ := (hnpx.mem_iff e').mp he'
    rw [hslot, hd'] at hd
    obtain rfl := Option.some.inj hd
    have hflag := of_decide_eq_true hone
    rw [of_decide_eq_true hzero] at hflag
    cases hflag
  refine ⟨_, _, _, hall, writes_listing hsound _ r, hpxd, writes_listing hsound _ r, hnpx,
    writes_listing hsound _ r, hdisjoint, hall.merge hpxd hnpx ?_ hdisjoint⟩
  intro e
  constructor
  · intro ⟨d, hd, hip, hdesc, hne, _, hgroup⟩
    rcases (hsound e.slot d hd).flag with hzero | hone
    · exact .inr ⟨d, hd, hip, hdesc, hne, decide_eq_true hzero, hgroup⟩
    · exact .inl ⟨d, hd, hip, hdesc, hne, decide_eq_true hone, hgroup⟩
  · intro h
    rcases h with ⟨d, hd, hip, hdesc, hne, -, hgroup⟩ | ⟨d, hd, hip, hdesc, hne, -, hgroup⟩
    · exact ⟨d, hd, hip, hdesc, hne, rfl, hgroup⟩
    · exact ⟨d, hd, hip, hdesc, hne, rfl, hgroup⟩

theorem Lists.unique {devices : Devices} {wanted : IoTDeviceInfo → Bool} {r : List Byte}
    {entries entries' : List Entry} (h : Lists devices wanted r entries)
    (h' : Lists devices wanted r entries') : entries = entries' := by
  have hirrefl : Std.Irrefl fun e e' : Entry => e.slot < e'.slot := ⟨fun e => lt_irrefl e.slot⟩
  have hantisymm : Std.Antisymm fun e e' : Entry => e.slot < e'.slot :=
    ⟨fun e e' hlt hgt => absurd hlt hgt.not_gt⟩
  exact h.order.eq_of_mem_iff h'.order fun e => (h.mem_iff e).trans (h'.mem_iff e).symm

theorem letterAddress_length (c : Byte) : (c :: List.replicate 14 0).length = IP_ADDR_SIZE := rfl

def letterAddress (c : Byte) : CharArray IP_ADDR_SIZE :=
  ⟨c :: List.replicate 14 0, letterAddress_length c⟩

/-- A device registers over connection 0, with the letter of its address as its ID. -/
def register (c : Byte) : Operation :=
  .addNewDevice (letterAddress c) (registerJsonOf c) 0 (List.replicate 200 0)

/-- The register package of a user interface. -/
def userInterfaceJson : JsonData where
  content := ascii "\x7b\"IOTDEV\":\x7b\"DeviceID\":\"u\",\"FunctionGroup\":\"UI\"\x7d\x7d" ++
    List.replicate 976 0
  tokens := [⟨.object, 0, 48, 1⟩, ⟨.string, 2, 8, 1⟩, ⟨.object, 10, 47, 2⟩, ⟨.string, 12, 20, 1⟩,
    ⟨.string, 23, 24, 0⟩, ⟨.string, 27, 40, 1⟩, ⟨.string, 43, 45, 0⟩]
  tokenSize := 7
  contentSize := 48

/-- Five devices: the one with the address `R` will be the requester, the one with the address
`U` is a user interface, and the one with the address `B` is proxied. -/
def fiveDevices : List Operation :=
  [register 65, register 66, register 82,
    .addNewDevice (letterAddress 85) userInterfaceJson 1 (List.replicate 200 0), register 67,
    .prxAdd (ascii "B")]

def description (c : Byte) : List Byte := (registerJsonOf c).content.take 47

theorem run_of_operate {ops : List Operation} {devices : Devices}
    (h : ops.foldlM (fun devices op => (operate devices op).toOption) noDevices =
      some devices) : Run Step noDevices ops devices := by
  refine Run.of_foldlM (fun before op after hstep => ?_) h
  exact toOption_eq_some hstep

theorem exists_fiveDevices : ∃ devices,
    fiveDevices.foldlM (fun devices op => (operate devices op).toOption) noDevices =
      some devices ∧
    listing devices (fun _ => true) (ascii "R") = [⟨0, ascii "A", description 65⟩,
      ⟨1, ascii "B", description 66⟩, ⟨4, ascii "C", description 67⟩] ∧
    listing devices (fun d => d.proxied = (1 : ℤ)) (ascii "R") =
      [⟨1, ascii "B", description 66⟩] ∧
    listing devices (fun d => d.proxied = (0 : ℤ)) (ascii "R") =
      [⟨0, ascii "A", description 65⟩, ⟨4, ascii "C", description 67⟩] := by
  have hrun : ((fiveDevices.foldlM (fun devices op => (operate devices op).toOption)
      noDevices).any fun devices =>
        listing devices (fun _ => true) (ascii "R") = [⟨0, ascii "A", description 65⟩,
          ⟨1, ascii "B", description 66⟩, ⟨4, ascii "C", description 67⟩] ∧
        listing devices (fun d => d.proxied = (1 : ℤ)) (ascii "R") =
          [⟨1, ascii "B", description 66⟩] ∧
        listing devices (fun d => d.proxied = (0 : ℤ)) (ascii "R") =
          [⟨0, ascii "A", description 65⟩, ⟨4, ascii "C", description 67⟩]) = true := by
    decide +kernel
  obtain ⟨devices, hdevices, hlists⟩ := (Option.any_eq_true ..).mp hrun
  exact ⟨devices, hdevices, of_decide_eq_true hlists⟩

/-- Neither the requester nor the user interface is in a list, and the proxied device stands
between the two others in the merged one. -/
theorem discovery_lists_five :
    ∃ devices, Run Step noDevices fiveDevices devices ∧
      ∃ all pxd npx : List Entry,
        all = [⟨0, ascii "A", description 65⟩, ⟨1, ascii "B", description 66⟩,
          ⟨4, ascii "C", description 67⟩] ∧
        pxd = [⟨1, ascii "B", description 66⟩] ∧
        npx = [⟨0, ascii "A", description 65⟩, ⟨4, ascii "C", description 67⟩] ∧
        Writes (fun buffer => encodeAllDevicesExceptOne devices buffer (ascii "R")) all ∧
        Writes (fun buffer => encodePxdDevicesExceptOne devices buffer (ascii "R") 1) pxd ∧
        Writes (fun buffer => encodePxdDevicesExceptOne devices buffer (ascii "R") 0) npx ∧
        pxd.merge npx (fun e e' => e.slot ≤ e'.slot) = all := by
  obtain ⟨devices, hdevices, hall, hpxd, hnpx⟩ := exists_fiveDevices
  have hrun := run_of_operate hdevices
  obtain ⟨all, pxd, npx, hallLists, hallWrites, hpxdLists, hpxdWrites, hnpxLists, hnpxWrites, -,
    hmerge⟩ := discovery_lists hrun (ascii "R")
  exact ⟨devices, hrun, all, pxd, npx,
    (hallLists.unique (lists_listing devices _ _)).trans hall,
    (hpxdLists.unique (lists_listing devices _ _)).trans hpxd,
    (hnpxLists.unique (lists_listing devices _ _)).trans hnpx, hallWrites, hpxdWrites, hnpxWrites,
    hmerge⟩

end IoTRepublic.DiscoveryLists
