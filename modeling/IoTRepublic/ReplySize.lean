import IoTRepublic.DiscoveryLists
import IoTRepublic.Registration
import Mathlib.Algebra.BigOperators.Fin

/-!
Discovery replies. A registration is limited by the size of its own text and the
table by its number of slots, but the list of all devices and the package that
carries it are made in arrays of a fixed size, so four long descriptions are
already too much.
-/
namespace IoTRepublic.ReplySize

open DecimalText Package CreatedPackage JsFileParser Registry RegistryMap Management
open DiscoverReply DiscoveryLists Registration JsonText JsonTable KeyPath Runs

/-- The devices that a command asks for. -/
def wantedBy (ID : List Byte) (device : IoTDeviceInfo) : Bool :=
  if ID = ascii "Dis_Pxd" then device.proxied = (1 : ℤ)
  else if ID = ascii "Dis_NPx" then device.proxied = (0 : ℤ)
  else true

/-- The bytes that a slot adds to a reply: an address, a description and two separators. -/
def slotSize (wanted : IoTDeviceInfo → Bool) (source : List Byte) : Option IoTDeviceInfo → ℕ
  | none => 0
  | some device => entryLength wanted source device

/-- The bytes of the reply about the devices. -/
def listedSize (devices : Devices) (source ID : List Byte) : ℕ :=
  ∑ i, slotSize (wantedBy ID) source (devices i)

theorem listLength_eq_sum (wanted : IoTDeviceInfo → Bool) (source : List Byte)
    (slots : List (Option IoTDeviceInfo)) :
    listLength wanted source slots = (slots.map (slotSize wanted source)).sum := by
  induction slots with
  | nil => rfl
  | cons slot slots ih =>
    rw [List.map_cons, List.sum_cons, ← ih]
    cases slot with
    | none => exact (Nat.zero_add _).symm
    | some device => rfl

theorem answerLength_eq (devices : Devices) (source : List Byte) {ID : List Byte}
    (hlisting : IsListing ID) : answerLength devices source ID = listedSize devices source ID := by
  have hsum : ∀ wanted, listLength wanted source (List.ofFn devices) =
      ∑ i, slotSize wanted source (devices i) := by
    intro wanted
    rw [listLength_eq_sum, List.map_ofFn, List.sum_ofFn]
    rfl
  rcases hlisting with rfl | rfl | rfl
  · exact hsum (wantedBy (ascii "Dis_All"))
  · exact hsum (wantedBy (ascii "Dis_Pxd"))
  · exact hsum (wantedBy (ascii "Dis_NPx"))

/-- In every table that registrations, deletions and proxy commands lead to, for each command
that lists devices and every requester: the list and the package are written inside their arrays
exactly if the bytes about the listed devices, the digits of their number, the requester's
address and 22 bytes more come to at most 4096. -/
theorem reply_fits_iff {ops : List Operation} {devices : Devices}
    (hrun : Run Step noDevices ops devices) {p : IoTPackage} {cmd : Command.IoTCommand}
    {source ID : List Byte} (hID : cmd.ID.text = .ok ID) (hlisting : IsListing ID)
    (hsource : p.sorIp.ip.text = .ok source) (haddress : IsAddress source)
    {i : Manager.Slot} (hslot : p.belongSocketIdx = i.val)
    (clientSocket : Manager.Slot → Manager.IoTSocket) :
    (∃ sent, discoverPackageReplier devices clientSocket p cmd = .ok sent) ↔
      listedSize devices source ID + (ofInt (listedSize devices source ID)).length +
        source.length + 22 ≤ maxDeviceListBuf := by
  have hsound := sound_run hrun
  rw [exists_reply_iff hID hsource haddress hslot]
  constructor
  · intro h
    have hfits := h.fits
    rw [answerLength_eq devices source hlisting] at hfits
    omega
  · intro hfits
    refine ⟨fun _ i device hi => (hsound i device hi).address, ?_⟩
    rw [answerLength_eq devices source hlisting]
    omega

def requesterTwo : IoTPackage :=
  { generateIotPackage with
    sorIp := ⟨⟨50 :: List.replicate 14 0, rfl⟩, 1⟩
    belongSocketIdx := 0 }

def discoverAll : Command.IoTCommand where
  cmdType := .management
  ID := ⟨ascii "Dis_All" ++ List.replicate 3 0, by decide⟩
  Value := ⟨48 :: List.replicate 9 0, rfl⟩

theorem requesterTwo_address :
    requesterTwo.sorIp.ip.text = .ok (ascii "2") ∧ IsAddress (ascii "2") :=
  ⟨by decide, by decide, by decide, by decide⟩

theorem discoverAll_text : discoverAll.ID.text = .ok (ascii "Dis_All") := by decide

def deviceLetter (k : Fin 4) : Byte := [65, 66, 67, 68].get k

theorem isQuoted_deviceLetter (k : Fin 4) : isQuoted [deviceLetter k] := by
  revert k
  decide

def longObject (k : Fin 4) : Value :=
  .container true noBlank (bothItems (deviceLetter k) (isQuoted_deviceLetter k))

/-- A registration of 1023 characters. -/
def longDocument (k : Fin 4) : Document :=
  ⟨noBlank, (registerDocument (bothItems (deviceLetter k) (isQuoted_deviceLetter k))).value,
    ⟨List.replicate 976 32, fun _ hblank => List.eq_of_mem_replicate hblank ▸ rfl⟩⟩

def longRecord (k : Fin 4) : IoTDeviceInfo :=
  recordOf addressOne 0 (longDocument k) (longObject k) 10 [deviceLetter k]

theorem longDocument_length (k : Fin 4) : (longDocument k).text.length = 1023 := by
  have hvalue : (longDocument k).value.render.length = 47 := rfl
  rw [Document.text, List.length_append, List.length_append, hvalue]
  exact congrArg (fun n => 0 + (47 + n)) List.length_replicate

/-- The text is received, parsed and stored. -/
theorem exists_longRecord (k : Fin 4) :
    ∃ d, initToken (arraysOf (longDocument k).text) = .ok d ∧
      newDeviceInfo addressOne d 0 (CharArray.zero tempBufferSize).bytes = .ok (longRecord k) := by
  have hshort : (longDocument k).text.length < MAXCONTENTSIZE := by
    rw [longDocument_length]
    decide
  have hfew : (longDocument k).nodes.length ≤ MAXTOKENSIZE := by
    have hcount : (longDocument k).nodes.length = 7 := rfl
    rw [hcount]
    decide
  obtain ⟨d, hd⟩ := exists_initToken (longDocument k) hshort hfew
  have hpayload : RegisterPayload (longDocument k) (longObject k) 10 := ⟨rfl, rfl, rfl⟩
  have hwords : ∀ k, valueBehind (ascii "DeviceID") (longDocument k) (longObject k) 10 =
        some ⟨.string, 23, [deviceLetter k], 0⟩ ∧
      valueBehind (ascii "FunctionGroup") (longDocument k) (longObject k) 10 =
        some ⟨.string, 43, [66], 0⟩ := by
    decide
  have hloaded : Loaded d (longDocument k) :=
    loaded_initToken rfl (arraysOf_content hshort) List.length_replicate hfew hd
  have hsource : addressOne.text = .ok [49] := rfl
  exact ⟨d, hd, hpayload.newDeviceInfo_eq hloaded hsource rfl (hwords k).1 (show 1 < 200 by decide)
    (.inr ⟨_, (hwords k).2, by decide⟩) _ 0⟩

/-- The table after these registrations. -/
def tableAfter (ks : List (Fin 4)) : Devices :=
  ks.foldl (fun devices k => storeDevice devices (longRecord k)) noDevices

theorem exists_run_longRecords (ks : List (Fin 4)) :
    ∃ ops, Run Step noDevices ops (tableAfter ks) ∧ ∀ op ∈ ops, ∃ k d,
      op = .addNewDevice addressOne d 0 (CharArray.zero tempBufferSize).bytes ∧
        initToken (arraysOf (longDocument k).text) = .ok d := by
  induction ks using List.reverseRecOn with
  | nil => exact ⟨[], Run.nil noDevices, by simp⟩
  | append_singleton ks k ih =>
    obtain ⟨ops, hrun, hops⟩ := ih
    obtain ⟨d, hinit, hnew⟩ := exists_longRecord k
    have hstep : Step (tableAfter ks)
        (.addNewDevice addressOne d 0 (CharArray.zero tempBufferSize).bytes)
        (storeDevice (tableAfter ks) (longRecord k)) :=
      step_addNewDevice.mpr ⟨longRecord k, hnew, rfl⟩
    refine ⟨ops ++ [.addNewDevice addressOne d 0 (CharArray.zero tempBufferSize).bytes], ?_, ?_⟩
    · rw [tableAfter, List.foldl_concat]
      exact hrun.snoc hstep
    · intro op hop
      rcases List.mem_append.mp hop with hop | hop
      · exact hops op hop
      · exact ⟨k, d, List.mem_singleton.mp hop, hinit⟩

/-- The descriptions of three devices fit a reply. -/
theorem reply_fits_three :
    ∃ sent, discoverPackageReplier (tableAfter [0, 1, 2]) (fun _ => 0) requesterTwo discoverAll =
      .ok sent := by
  obtain ⟨ops, hrun, -⟩ := exists_run_longRecords [0, 1, 2]
  have hsize : listedSize (tableAfter [0, 1, 2]) (ascii "2") (ascii "Dis_All") = 3078 := by
    decide +kernel
  have hslot : requesterTwo.belongSocketIdx = ((0 : Manager.Slot).val : ℤ) := rfl
  apply (reply_fits_iff hrun discoverAll_text (.inl rfl) requesterTwo_address.1
    requesterTwo_address.2 hslot (fun _ => 0)).mpr
  rw [hsize]
  decide

theorem tableAfter_size :
    4096 < listedSize (tableAfter [0, 1, 2, 3]) (ascii "2") (ascii "Dis_All") := by
  decide +kernel

/-- Four registrations of 1023 characters make a table whose list does not fit. -/
theorem reply_four :
    (∃ ops, Run Step noDevices ops (tableAfter [0, 1, 2, 3]) ∧ ∀ op ∈ ops, ∃ k d,
      op = .addNewDevice addressOne d 0 (CharArray.zero tempBufferSize).bytes ∧
        initToken (arraysOf (longDocument k).text) = .ok d) ∧
    ¬ ∃ sent, discoverPackageReplier (tableAfter [0, 1, 2, 3]) (fun _ => 0) requesterTwo
      discoverAll = .ok sent := by
  constructor
  · exact exists_run_longRecords [0, 1, 2, 3]
  · intro hsent
    have hslot : requesterTwo.belongSocketIdx = ((0 : Manager.Slot).val : ℤ) := rfl
    have hanswer := (exists_reply_iff discoverAll_text requesterTwo_address.1
      requesterTwo_address.2 hslot).mp hsent
    have hfits := hanswer.fits
    have hlong := tableAfter_size
    have hmax : maxDeviceListBuf = 4096 := rfl
    rw [answerLength_eq (tableAfter [0, 1, 2, 3]) (ascii "2") (.inl rfl)] at hfits
    omega

end IoTRepublic.ReplySize
