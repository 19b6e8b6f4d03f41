import IoTRepublic.BrokerDeletion

/-!
The device table of the XBee broker as a map from radio addresses to the IoT
address each device was given, if it was given one. Adding, assigning and
removing follow the map. Clearing the table stops behind the first device it
frees, and a device that was never given an address is found under whatever
text its record was allocated with; the exact conditions for these two are
proved along the runs that otherwise follow the map.
-/
namespace IoTRepublic.XBeeTable

open CheckedArray Package XBeeBroker Runs

/-- The loop is left with `break` after the first device it frees. -/
def clearAllXbeeDevice (xbeeDevices : XBeeDevices) : XBeeDevices :=
  match Fin.find? (fun i => (xbeeDevices i).isSome) with
  | some i => Function.update xbeeDevices i none
  | none => xbeeDevices

/-- The index that `add_new_xbee_device` returns. -/
def returnedIndex : Option Slot → ℕ
  | some i => i.val
  | none => MAXDEVICECOUNT

/-- The present devices, each with the IoT address it was last given. -/
abbrev AddressMap := XBeeAddress64 → Option (Option (List Byte))

namespace AddressMap

def empty : AddressMap := fun _ => none

def add (m : AddressMap) (addr : XBeeAddress64) : AddressMap :=
  Function.update m addr (some none)

def assign (m : AddressMap) (addr : XBeeAddress64) (ip : List Byte) : AddressMap :=
  Function.update m addr ((m addr).map (fun _ => some ip))

def remove (m : AddressMap) (addr : XBeeAddress64) : AddressMap :=
  Function.update m addr none

end AddressMap

/-- The table holds the devices of the map, each in one slot, and their addresses. -/
structure Refines (xbeeDevices : XBeeDevices) (m : AddressMap) : Prop where
  keyed : SlotTable.Keyed XBeeDevInfo.xbAddr xbeeDevices
  present : ∀ addr, (m addr).isSome ↔ ∃ i d, xbeeDevices i = some d ∧ d.xbAddr = addr
  assigned : ∀ i d ip, xbeeDevices i = some d → m d.xbAddr = some (some ip) → d.ip = ip

/-- At most one slot is occupied. -/
def AtMostOne (xbeeDevices : XBeeDevices) : Prop :=
  ∀ i j, (xbeeDevices i).isSome → (xbeeDevices j).isSome → i = j

instance (xbeeDevices : XBeeDevices) : Decidable (AtMostOne xbeeDevices) := by
  unfold AtMostOne
  infer_instance

/-- No device without an address happens to be allocated with this text, unless the text was
given to some device. -/
def NotLeftOver (xbeeDevices : XBeeDevices) (m : AddressMap) (ip : List Byte) : Prop :=
  (∃ addr, m addr = some (some ip)) ∨
    ∀ i d, xbeeDevices i = some d → m d.xbAddr = some none → d.ip ≠ ip

section

variable {xbeeDevices : XBeeDevices} {m : AddressMap} {addr : XBeeAddress64} {ip : List Byte}
  {i : Slot} {d : XBeeDevInfo}

theorem findDeviceIndex_eq (xbeeDevices : XBeeDevices) (addr : XBeeAddress64) :
    findDeviceIndex xbeeDevices addr =
      SlotTable.firstIndex xbeeDevices (fun d => d.xbAddr = addr) := by
  unfold findDeviceIndex SlotTable.firstIndex
  rfl

theorem emptyIndex_eq (xbeeDevices : XBeeDevices) :
    emptyIndex xbeeDevices = SlotTable.firstFree xbeeDevices := by
  unfold emptyIndex SlotTable.firstFree
  rfl

theorem findXbeeAddrByIotip_eq (xbeeDevices : XBeeDevices) (ip : List Byte) :
    findXbeeAddrByIotip xbeeDevices ip =
      (SlotTable.find xbeeDevices (fun d => d.ip = ip)).map XBeeDevInfo.xbAddr := by
  unfold findXbeeAddrByIotip SlotTable.find SlotTable.firstIndex
  rw [Option.map_bind]
  rfl

theorem refines_empty : Refines noDevices AddressMap.empty where
  keyed := SlotTable.keyed_empty
  present := by simp [AddressMap.empty, noDevices]
  assigned := by simp [noDevices]

theorem Refines.findDeviceIndex_isSome (h : Refines xbeeDevices m) :
    (findDeviceIndex xbeeDevices addr).isSome ↔ (m addr).isSome := by
  rw [h.present, findDeviceIndex_eq, Option.isSome_iff_exists]
  constructor
  · intro ⟨i, hi⟩
    obtain ⟨d, hd, haddr, -⟩ := SlotTable.firstIndex_eq_some hi
    exact ⟨i, d, hd, haddr⟩
  · intro ⟨i, d, hd, haddr⟩
    refine ⟨i, ?_⟩
    rw [← haddr]
    exact h.keyed.firstIndex_eq hd

/-- What `add_new_xbee_device` does for an address that has no slot yet. -/
theorem Refines.add (h : Refines xbeeDevices m) (hnew : findDeviceIndex xbeeDevices addr = none)
    (ip : List Byte) {after : XBeeDevices}
    (hadd : addNewXbeeDevice xbeeDevices addr ip = (after, some i)) :
    Refines after (m.add addr) ∧ after i = some (newXbeeDevice addr ip) := by
  unfold addNewXbeeDevice at hadd
  cases hempty : emptyIndex xbeeDevices with
  | none =>
    rw [hempty] at hadd
    cases (Prod.mk.inj hadd).2
  | some j =>
    rw [hempty] at hadd
    obtain ⟨rfl, hij⟩ := Prod.mk.inj hadd
    obtain rfl := Option.some.inj hij
    have hfree := emptyIndex_eq_some hempty
    have hother : ∀ k e, xbeeDevices k = some e → e.xbAddr ≠ addr := by
      intro k e he
      rw [findDeviceIndex_eq] at hnew
      have hnot := SlotTable.firstIndex_eq_none hnew he
      exact hnot
    refine ⟨⟨h.keyed.update (fun k e _ he => hother k e he), ?_, ?_⟩, Function.update_self ..⟩
    · intro a
      by_cases ha : a = addr
      · subst ha
        simp only [AddressMap.add, Function.update_self, Option.isSome_some, true_iff]
        exact ⟨j, newXbeeDevice a ip, Function.update_self .., rfl⟩
      · simp only [AddressMap.add, Function.update_of_ne ha]
        rw [h.present]
        constructor
        · intro ⟨k, e, he, hea⟩
          have hkj : k ≠ j := by
            intro hkj
            rw [hkj, hfree] at he
            cases he
          exact ⟨k, e, by rw [Function.update_of_ne hkj]; exact he, hea⟩
        · intro ⟨k, e, he, hea⟩
          rcases SlotTable.update_eq_some he with ⟨-, hnewest⟩ | ⟨-, he⟩
          · obtain rfl := Option.some.inj hnewest
            exact absurd hea.symm ha
          · exact ⟨k, e, he, hea⟩
    · intro k e given he hgiven
      rcases SlotTable.update_eq_some he with ⟨-, hnewest⟩ | ⟨-, he⟩
      · obtain rfl := Option.some.inj hnewest
        simp [AddressMap.add, newXbeeDevice] at hgiven
      · rw [AddressMap.add, Function.update_of_ne (hother k e he)] at hgiven
        exact h.assigned k e given he hgiven

/-- Without a free slot nothing is stored. -/
theorem addNewXbeeDevice_full (hadd : (addNewXbeeDevice xbeeDevices addr ip).2 = none) :
    (addNewXbeeDevice xbeeDevices addr ip).1 = xbeeDevices ∧ ∀ i, xbeeDevices i ≠ none := by
  unfold addNewXbeeDevice at hadd ⊢
  cases hempty : emptyIndex xbeeDevices with
  | none =>
    rw [emptyIndex_eq] at hempty
    exact ⟨rfl, SlotTable.firstFree_eq_none hempty⟩
  | some j =>
    rw [hempty] at hadd
    cases hadd

theorem Refines.assign (h : Refines xbeeDevices m) (addr : XBeeAddress64) (ip : List Byte) :
    Refines (updateIotIp xbeeDevices addr ip) (m.assign addr ip) := by
  unfold updateIotIp
  rw [findDeviceIndex_eq]
  cases hindex : SlotTable.firstIndex xbeeDevices (fun d => d.xbAddr = addr) with
  | none =>
    have habsent : m addr = none := by
      rw [← Option.not_isSome_iff_eq_none, h.present]
      intro ⟨i, d, hd, haddr⟩
      exact SlotTable.firstIndex_eq_none hindex hd haddr
    have hsame : m.assign addr ip = m := by
      rw [AddressMap.assign, habsent, Option.map_none, ← habsent, Function.update_eq_self]
    rw [hsame]
    exact h
  | some i =>
    obtain ⟨d, hd, haddr, -⟩ := SlotTable.firstIndex_eq_some hindex
    subst haddr
    dsimp only
    rw [hd, Option.map_some]
    refine ⟨h.keyed.update ?_, ?_, ?_⟩
    · intro k e hk he hsame
      exact hk (h.keyed k i e d he hd hsame)
    · intro a
      have hmap : (m.assign d.xbAddr ip a).isSome ↔ (m a).isSome := by
        by_cases ha : a = d.xbAddr
        · rw [ha, AddressMap.assign, Function.update_self, Option.isSome_map]
        · rw [AddressMap.assign, Function.update_of_ne ha]
      rw [hmap, h.present]
      constructor
      · intro ⟨k, e, he, hea⟩
        by_cases hk : k = i
        · subst hk
          obtain rfl := Option.some.inj (hd.symm.trans he)
          exact ⟨k, _, Function.update_self .., hea⟩
        · exact ⟨k, e, by rw [Function.update_of_ne hk]; exact he, hea⟩
      · intro ⟨k, e, he, hea⟩
        rcases SlotTable.update_eq_some he with ⟨-, hnew⟩ | ⟨-, he⟩
        · obtain rfl := Option.some.inj hnew
          exact ⟨i, d, hd, hea⟩
        · exact ⟨k, e, he, hea⟩
    · intro k e given he hgiven
      rcases SlotTable.update_eq_some he with ⟨-, hnew⟩ | ⟨hk, he⟩
      · obtain rfl := Option.some.inj hnew
        rw [AddressMap.assign, Function.update_self] at hgiven
        obtain ⟨_, -, hip⟩ := Option.map_eq_some_iff.mp hgiven
        exact Option.some.inj hip
      · have hne : e.xbAddr ≠ d.xbAddr := fun hsame => hk (h.keyed k i e d he hd hsame)
        rw [AddressMap.assign, Function.update_of_ne hne] at hgiven
        exact h.assigned k e given he hgiven

theorem Refines.remove (h : Refines xbeeDevices m) (hd : xbeeDevices i = some d) :
    Refines (Function.update xbeeDevices i none) (m.remove d.xbAddr) := by
  have hother : ∀ k e, k ≠ i → xbeeDevices k = some e → e.xbAddr ≠ d.xbAddr :=
    fun k e hk he hsame => hk (h.keyed k i e d he hd hsame)
  have hold : ∀ k e, Function.update xbeeDevices i none k = some e →
      k ≠ i ∧ xbeeDevices k = some e := by
    intro k e he
    rcases SlotTable.update_eq_some he with ⟨-, hnone⟩ | hold
    · cases hnone
    · exact hold
  refine ⟨h.keyed.erase, ?_, ?_⟩
  · intro a
    by_cases ha : a = d.xbAddr
    · subst ha
      simp only [AddressMap.remove, Function.update_self, Option.isSome_none, Bool.false_eq_true,
        false_iff]
      intro ⟨k, e, he, hea⟩
      obtain ⟨hk, he⟩ := hold k e he
      exact hother k e hk he hea
    · rw [AddressMap.remove, Function.update_of_ne ha, h.present]
      constructor
      · intro ⟨k, e, he, hea⟩
        have hk : k ≠ i := by
          intro hk
          rw [hk, hd] at he
          obtain rfl := Option.some.inj he
          exact ha hea.symm
        exact ⟨k, e, by rw [Function.update_of_ne hk]; exact he, hea⟩
      · intro ⟨k, e, he, hea⟩
        exact ⟨k, e, (hold k e he).2, hea⟩
  · intro k e given he hgiven
    obtain ⟨hk, he⟩ := hold k e he
    rw [AddressMap.remove, Function.update_of_ne (hother k e hk he)] at hgiven
    exact h.assigned k e given he hgiven

/-- Only one device is freed, so the table is empty afterwards when there was no other. -/
theorem clearAllXbeeDevice_eq_none_iff :
    (∀ i, clearAllXbeeDevice xbeeDevices i = none) ↔ AtMostOne xbeeDevices := by
  unfold clearAllXbeeDevice
  cases hfind : Fin.find? (fun i => (xbeeDevices i).isSome) with
  | none =>
    have hnone : ∀ i, xbeeDevices i = none := by
      intro i
      have hnot := Fin.eq_false_of_find?_eq_none hfind i
      simpa using hnot
    simp [hnone, AtMostOne]
  | some j =>
    have hj := Fin.eq_true_of_find?_eq_some hfind
    dsimp only
    constructor
    · intro hall
      have honly : ∀ i, (xbeeDevices i).isSome → i = j := by
        intro i hi
        by_contra hij
        have hnone := hall i
        rw [Function.update_of_ne hij] at hnone
        rw [hnone] at hi
        cases hi
      intro i k hi hk
      rw [honly i hi, honly k hk]
    · intro hone i
      by_cases hij : i = j
      · rw [hij, Function.update_self]
      · rw [Function.update_of_ne hij, ← Option.not_isSome_iff_eq_none]
        intro hi
        exact hij (hone i j hi hj)

/-- A lookup by IoT address tells whether it was given to a present device, exactly when no
left-over text gets in the way. -/
theorem Refines.lookup_iff (h : Refines xbeeDevices m) (ip : List Byte) :
    ((findXbeeAddrByIotip xbeeDevices ip).isSome ↔ ∃ addr, m addr = some (some ip)) ↔
      NotLeftOver xbeeDevices m ip := by
  have hfound : (findXbeeAddrByIotip xbeeDevices ip).isSome ↔
      ∃ i d, xbeeDevices i = some d ∧ d.ip = ip := by
    rw [findXbeeAddrByIotip_eq, Option.isSome_map, ← not_iff_not, Option.not_isSome_iff_eq_none,
      SlotTable.find_eq_none_iff]
    push Not
    rfl
  have hgiven : (∃ addr, m addr = some (some ip)) → ∃ i d, xbeeDevices i = some d ∧ d.ip = ip := by
    intro ⟨addr, haddr⟩
    obtain ⟨i, d, hd, hda⟩ := (h.present addr).mp (by rw [haddr]; rfl)
    rw [← hda] at haddr
    exact ⟨i, d, hd, h.assigned i d ip hd haddr⟩
  rw [hfound]
  constructor
  · intro hiff
    by_cases hsome : ∃ addr, m addr = some (some ip)
    · exact .inl hsome
    · refine .inr ?_
      intro i d hd _ hip
      exact hsome (hiff.mp ⟨i, d, hd, hip⟩)
  · intro hclean
    refine ⟨?_, hgiven⟩
    intro ⟨i, d, hd, hip⟩
    rcases hclean with hsome | hnot
    · exact hsome
    · have hpresent := (h.present d.xbAddr).mpr ⟨i, d, hd, rfl⟩
      obtain ⟨given, hgiven'⟩ := Option.isSome_iff_exists.mp hpresent
      cases given with
      | none => exact absurd hip (hnot i d hd hgiven')
      | some given =>
        refine ⟨d.xbAddr, ?_⟩
        rw [hgiven', ← h.assigned i d given hd hgiven', hip]

end

/-- The table and the map it should be. -/
structure State where
  xbeeDevices : XBeeDevices
  map : AddressMap

def initState : State := ⟨noDevices, AddressMap.empty⟩

/-- `ip` of an addition is the text that the new record is allocated with. -/
inductive Operation
  | addNew (addr : XBeeAddress64) (ip : List Byte)
  | updateIp (addr : XBeeAddress64) (ip : List Byte)
  | remove (deviceIndex : Slot)
  | clearAll

def step (s : State) : Operation → Exec State
  | .addNew addr ip =>
    match addNewXbeeDevice s.xbeeDevices addr ip with
    | (xbeeDevices, some _) => .ok ⟨xbeeDevices, s.map.add addr⟩
    | (xbeeDevices, none) => .ok { s with xbeeDevices := xbeeDevices }
  | .updateIp addr ip => .ok ⟨updateIotIp s.xbeeDevices addr ip, s.map.assign addr ip⟩
  | .remove deviceIndex => do
    let d ← deviceAt s.xbeeDevices deviceIndex
    let xbeeDevices ← removeXbeeDevice s.xbeeDevices deviceIndex
    .ok ⟨xbeeDevices, s.map.remove d.xbAddr⟩
  | .clearAll => .ok ⟨clearAllXbeeDevice s.xbeeDevices, AddressMap.empty⟩

/-- The caller adds only addresses that have no slot. -/
def Allowed (s : State) : Operation → Prop
  | .addNew addr _ => findDeviceIndex s.xbeeDevices addr = none
  | _ => True

def Step (s : State) (op : Operation) (t : State) : Prop := Allowed s op ∧ step s op = .ok t

/-- A removal with its message to the manager is a removal here, wherever the message is sent. -/
theorem step_of_removeXbeeDevice (jsonObj : Management.JsonObject)
    (sendBuffer : CharArray MAXPACKETSIZE) {s : State} {i : Slot} {d : XBeeDevInfo}
    (hd : s.xbeeDevices i = some d) {sent : List Byte} {after : XBeeDevices}
    (h : BrokerDeletion.removeXbeeDevice jsonObj sendBuffer s.xbeeDevices i = .ok (sent, after)) :
    Step s (.remove i) ⟨after, s.map.remove d.xbAddr⟩ := by
  refine ⟨trivial, ?_⟩
  rw [step, deviceAt_eq_ok.mpr hd, ok_bind,
    BrokerDeletion.removeXbeeDevice_table jsonObj sendBuffer h, ok_bind]

/-- The table is cleared when at most one device is present. -/
def ClearsOne (s : State) : Operation → Prop
  | .clearAll => AtMostOne s.xbeeDevices
  | _ => True

/-- An operation that is not stopped by the early `break` follows the map. -/
theorem Refines.step {s t : State} {op : Operation} (h : Refines s.xbeeDevices s.map)
    (hstep : Meeting Step ClearsOne s op t) : Refines t.xbeeDevices t.map := by
  obtain ⟨⟨hallowed, hstep⟩, hclears⟩ := hstep
  unfold XBeeTable.step at hstep
  cases op with
  | addNew addr ip =>
    dsimp only at hstep
    split at hstep
    · rename_i after i hadd
      obtain rfl := Except.ok.inj hstep
      exact (h.add hallowed ip hadd).1
    · rename_i after hadd
      obtain rfl := Except.ok.inj hstep
      have hfull := (addNewXbeeDevice_full (congrArg Prod.snd hadd)).1
      rw [hadd] at hfull
      dsimp only at hfull ⊢
      rw [hfull]
      exact h
  | updateIp addr ip =>
    obtain rfl := Except.ok.inj hstep
    exact h.assign addr ip
  | remove deviceIndex =>
    obtain ⟨d, hd, hstep⟩ := bind_eq_ok.mp hstep
    obtain ⟨after, hremove, hstep⟩ := bind_eq_ok.mp hstep
    obtain ⟨_, -, hremove⟩ := bind_eq_ok.mp hremove
    obtain rfl := Except.ok.inj hremove
    obtain rfl := Except.ok.inj hstep
    exact h.remove (deviceAt_eq_ok.mp hd)
  | clearAll =>
    obtain rfl := Except.ok.inj hstep
    have hempty : clearAllXbeeDevice s.xbeeDevices = noDevices := by
      funext i
      exact clearAllXbeeDevice_eq_none_iff.mpr hclears i
    dsimp only
    rw [hempty]
    exact refines_empty

/-- In every run that clears the table with at most one device present: no two slots hold
one address and the table holds the devices of the map; an addition gives an index below
the number of slots, which then holds the address, or the number of slots itself when all
are occupied; a lookup by an IoT address tells whether it was given to a present device
exactly when it is not a left-over text; and clearing leaves every slot empty exactly when
at most one device is present. -/
theorem device_table_refines {ops : List Operation} {s : State}
    (hrun : Run (Meeting Step ClearsOne) initState ops s) :
    (∀ i j d e, s.xbeeDevices i = some d → s.xbeeDevices j = some e → d.xbAddr = e.xbAddr →
      i = j) ∧
    (∀ addr, (findDeviceIndex s.xbeeDevices addr).isSome ↔ (s.map addr).isSome) ∧
    (∀ addr ip, findDeviceIndex s.xbeeDevices addr = none →
      (∀ i, (addNewXbeeDevice s.xbeeDevices addr ip).2 = some i →
        returnedIndex (some i) < MAXDEVICECOUNT ∧
        ∃ d, (addNewXbeeDevice s.xbeeDevices addr ip).1 i = some d ∧ d.xbAddr = addr) ∧
      ((addNewXbeeDevice s.xbeeDevices addr ip).2 = none →
        returnedIndex none = MAXDEVICECOUNT ∧
        (addNewXbeeDevice s.xbeeDevices addr ip).1 = s.xbeeDevices ∧
        ∀ i, s.xbeeDevices i ≠ none)) ∧
    (∀ ip, ((findXbeeAddrByIotip s.xbeeDevices ip).isSome ↔ ∃ addr, s.map addr = some (some ip)) ↔
      NotLeftOver s.xbeeDevices s.map ip) ∧
    ((∀ i, clearAllXbeeDevice s.xbeeDevices i = none) ↔ AtMostOne s.xbeeDevices) := by
  have hrefines : Refines s.xbeeDevices s.map :=
    hrun.invariant (fun s => Refines s.xbeeDevices s.map) (fun _ _ _ hs hstep => hs.step hstep)
      refines_empty
  refine ⟨hrefines.keyed, fun addr => hrefines.findDeviceIndex_isSome, ?_, hrefines.lookup_iff,
    clearAllXbeeDevice_eq_none_iff⟩
  intro addr ip hnew
  constructor
  · intro i hi
    have hadd := hrefines.add hnew ip (Prod.ext rfl hi)
    exact ⟨i.isLt, _, hadd.2, rfl⟩
  · intro hfull
    obtain ⟨hsame, hoccupied⟩ := addNewXbeeDevice_full hfull
    exact ⟨rfl, hsame, hoccupied⟩

def addTwo : List Operation := [.addNew ⟨0, 1⟩ (ascii "B"), .addNew ⟨0, 2⟩ []]

instance (s : State) (op : Operation) : Decidable (Allowed s op) := by
  unfold Allowed
  cases op <;> infer_instance

/-- A step of the table, if it is allowed and comes to an end. -/
def step? (s : State) (op : Operation) : Option State :=
  if Allowed s op then (step s op).toOption else none

theorem step_of_step? {s : State} {op : Operation} {t : State} (h : step? s op = some t) :
    Step s op t := by
  unfold step? at h
  split at h
  · rename_i hallowed
    exact ⟨hallowed, toOption_eq_some h⟩
  · cases h

/-- Two devices are present when the table is cleared, and the second stays. -/
theorem clear_leaves_second :
    ¬ ∀ ops s, Run Step initState ops s → ∀ i, clearAllXbeeDevice s.xbeeDevices i = none := by
  intro hall
  have hleft : ((addTwo.foldlM step? initState).any
      fun s => (clearAllXbeeDevice s.xbeeDevices 1).isSome) = true := by
    decide +kernel
  obtain ⟨s, hrun, hsome⟩ := (Option.any_eq_true ..).mp hleft
  have hnone := hall addTwo s (Run.of_foldlM (fun _ _ _ => step_of_step?) hrun) 1
  rw [hnone] at hsome
  cases hsome

instance (s : State) (op : Operation) : Decidable (ClearsOne s op) := by
  unfold ClearsOne
  cases op <;> infer_instance

/-- Three devices, two of which are given an address; the third was allocated with a text. -/
def addThree : List Operation :=
  [.addNew ⟨0, 1⟩ [], .addNew ⟨0, 2⟩ [], .addNew ⟨0, 3⟩ (ascii "X"),
    .updateIp ⟨0, 1⟩ (ascii "DEV.1"), .updateIp ⟨0, 2⟩ (ascii "DEV.2")]

/-- The operations are computed one after the other, as long as each meets the condition. -/
def meeting? (s : State) (op : Operation) : Option State :=
  if ClearsOne s op then step? s op else none

theorem run_of_meeting? {s t : State} {ops : List Operation}
    (h : ops.foldlM meeting? s = some t) : Run (Meeting Step ClearsOne) s ops t :=
  Run.of_foldlM (fun _ _ _ hstep => meeting_of_ite step_of_step? hstep) h

theorem exists_addThree : ∃ s, addThree.foldlM meeting? initState = some s ∧
    s.xbeeDevices 1 = some ⟨⟨0, 2⟩, ascii "DEV.2", 1, 1⟩ ∧
    findXbeeAddrByIotip (Function.update s.xbeeDevices 1 none) (ascii "DEV.1") = some ⟨0, 1⟩ ∧
    findXbeeAddrByIotip (Function.update s.xbeeDevices 1 none) (ascii "DEV.2") = none ∧
    (∀ i, (Function.update s.xbeeDevices 1 none i).all fun d => d.ip ≠ ascii "DEV.2") ∧
    ¬ AtMostOne (Function.update s.xbeeDevices 1 none) ∧
    ([.remove 2, .clearAll].foldlM meeting?
      ⟨Function.update s.xbeeDevices 1 none, s.map.remove ⟨0, 2⟩⟩).any
      fun u => ∀ i, u.xbeeDevices i = none := by
  have hadded : ((addThree.foldlM meeting? initState).any fun s =>
      s.xbeeDevices 1 = some ⟨⟨0, 2⟩, ascii "DEV.2", 1, 1⟩ ∧
      findXbeeAddrByIotip (Function.update s.xbeeDevices 1 none) (ascii "DEV.1") = some ⟨0, 1⟩ ∧
      findXbeeAddrByIotip (Function.update s.xbeeDevices 1 none) (ascii "DEV.2") = none ∧
      (∀ i, (Function.update s.xbeeDevices 1 none i).all fun d => d.ip ≠ ascii "DEV.2") ∧
      ¬ AtMostOne (Function.update s.xbeeDevices 1 none) ∧
      ([.remove 2, .clearAll].foldlM meeting?
        ⟨Function.update s.xbeeDevices 1 none, s.map.remove ⟨0, 2⟩⟩).any
        fun u => ∀ i, u.xbeeDevices i = none) = true := by
    decide +kernel
  obtain ⟨s, hs, hfacts⟩ := (Option.any_eq_true ..).mp hadded
  exact ⟨s, hs, of_decide_eq_true hfacts⟩

/-- The second of three devices is removed with its message: the first is still found by its
address, the address of the second is that of no device, and clearing would not empty the table.
When the third has been removed as well, it does. -/
theorem device_table_refines_three :
    ∃ s sent t u, Run (Meeting Step ClearsOne) initState addThree s ∧
      BrokerDeletion.removeXbeeDevice BrokerDeletion.blankObject (CharArray.zero MAXPACKETSIZE)
        s.xbeeDevices 1 = .ok (sent, t.xbeeDevices) ∧
      Run (Meeting Step ClearsOne) initState (addThree ++ [.remove 1]) t ∧
      findXbeeAddrByIotip t.xbeeDevices (ascii "DEV.1") = some ⟨0, 1⟩ ∧
      (¬ ∃ addr, t.map addr = some (some (ascii "DEV.2"))) ∧
      (¬ ∀ i, clearAllXbeeDevice t.xbeeDevices i = none) ∧
      Run (Meeting Step ClearsOne) initState
        (addThree ++ [.remove 1] ++ [.remove 2, .clearAll]) u ∧
      ∀ addr, u.map addr = none := by
  obtain ⟨s, hs, hsecond, hfirst, hnot, hother, hmore, hrest⟩ := exists_addThree
  obtain ⟨u, hu, hempty⟩ := (Option.any_eq_true ..).mp hrest
  have hexists : ∃ sent, BrokerDeletion.removeXbeeDevice BrokerDeletion.blankObject
      (CharArray.zero MAXPACKETSIZE) s.xbeeDevices 1 =
        .ok (sent, Function.update s.xbeeDevices 1 none) ∧
      BrokerDeletion.DeletesFirst sent (ascii "DEV.2") :=
    BrokerDeletion.removeDevice_deletes ⟨by decide, by decide, List.all_eq_true.mp (by decide)⟩
      BrokerDeletion.blankObject (CharArray.zero MAXPACKETSIZE) hsecond rfl
  obtain ⟨sent, hremove, -⟩ := hexists
  have hadded := run_of_meeting? hs
  have hremoved := hadded.snoc
    ⟨step_of_removeXbeeDevice BrokerDeletion.blankObject _ hsecond hremove, trivial⟩
  have hcleared := hremoved.append (run_of_meeting? hu)
  obtain ⟨-, -, -, hlookup, hclear⟩ := device_table_refines hremoved
  obtain ⟨-, hpresent, -, -, -⟩ := device_table_refines hcleared
  have hclean : NotLeftOver (Function.update s.xbeeDevices 1 none) (s.map.remove ⟨0, 2⟩)
      (ascii "DEV.2") := by
    refine .inr ?_
    intro i d hd _
    have hall := hother i
    rw [hd] at hall
    exact of_decide_eq_true hall
  refine ⟨s, sent, _, u, hadded, hremove, hremoved, hfirst, ?_, hclear.not.mpr hmore, hcleared, ?_⟩
  · rw [← (hlookup (ascii "DEV.2")).mpr hclean]
    dsimp only
    rw [hnot]
    exact Bool.false_ne_true
  · intro addr
    have hfree : findDeviceIndex u.xbeeDevices addr = none := by
      apply Fin.find?_eq_none_iff.mpr
      intro i
      rw [of_decide_eq_true hempty i]
      rfl
    rw [← Option.not_isSome_iff_eq_none, ← hpresent addr, hfree]
    exact Bool.false_ne_true

end IoTRepublic.XBeeTable
