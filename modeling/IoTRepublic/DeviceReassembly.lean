import IoTRepublic.DeviceReceiver
import IoTRepublic.Foundation.Delimited

/-!
Reassembly of commands in the device. The frames of the commands arrive in pieces,
one for each call. A piece that goes on behind an end code begins the next frame,
and that beginning is lost with the rest of the piece, so every command is
returned exactly when no piece does so. The converse counts start codes: no call
returns more packages than it uses up start codes, and such a piece uses up one
for nothing.
-/
namespace IoTRepublic.DeviceReassembly

open CheckedArray Package SerialFrame DeviceReceiver

def frame (command : List Byte) : List Byte := startCode :: (command ++ [endCode])

/-- The commands that are handed to the caller and fit the array with their two codes. -/
structure IsCommand (command : List Byte) : Prop where
  pos : 1 ≤ command.length
  short : command.length ≤ 17
  noStart : startCode ∉ command
  noEnd : endCode ∉ command
  notSyn : command ≠ cmdSyn
  notDes : command ≠ cmdDes

/-- The pieces that the calls find at the port, put together. -/
def received (calls : List Call) : List Byte := calls.flatMap Call.available

/-- Behind an end code a call finds nothing. -/
def EndsAtEndCode (available : List Byte) : Prop :=
  ∀ front behind, available = front ++ endCode :: behind → behind = []

theorem endsAtEndCode_iff (available : List Byte) :
    EndsAtEndCode available ↔ endCode ∉ available.dropLast := by
  constructor
  · intro h hmem
    obtain ⟨front, behind, hsplit⟩ := List.append_of_mem hmem
    have hne : available ≠ [] := by
      intro hnil
      rw [hnil] at hmem
      simp at hmem
    have hwhole : available = front ++ endCode :: (behind ++ [available.getLast hne]) := by
      nth_rewrite 1 [← List.dropLast_append_getLast hne]
      rw [hsplit, List.append_assoc, List.cons_append]
    exact absurd (h _ _ hwhole) (by simp)
  · intro h front behind hsplit
    by_contra hne
    apply h
    rw [hsplit, List.dropLast_append_of_ne_nil (List.cons_ne_nil _ _),
      List.dropLast_cons_of_ne_nil hne]
    simp

instance (available : List Byte) : Decidable (EndsAtEndCode available) :=
  decidable_of_iff _ (endsAtEndCode_iff available).symm

theorem frame_append (command rest : List Byte) :
    frame command ++ rest = startCode :: (command ++ endCode :: rest) := by
  simp [frame]

section

variable {commands : List (List Byte)} {w rest command : List Byte}

theorem count_frames (hcommands : ∀ command ∈ commands, IsCommand command) :
    (commands.flatMap frame).count startCode = commands.length := by
  induction commands with
  | nil => rfl
  | cons command commands ih =>
    have hcommand := hcommands command List.mem_cons_self
    have hnone := List.count_eq_zero.mpr hcommand.noStart
    have hend : endCode ≠ startCode := by decide
    rw [List.flatMap_cons, frame_append, List.count_cons_self, List.count_append, hnone,
      List.count_cons_of_ne hend, ih (fun c hc => hcommands c (List.mem_cons_of_mem command hc)),
      List.length_cons, Nat.zero_add]

/-- Behind an end code the next frame begins. -/
theorem frames_behind (hcommands : ∀ command ∈ commands, IsCommand command) {c : Byte}
    (h : commands.flatMap frame = w ++ endCode :: c :: rest) : c = startCode := by
  induction commands generalizing w with
  | nil => simp at h
  | cons command commands ih =>
    have hcommand := hcommands command List.mem_cons_self
    have hothers : ∀ c ∈ commands, IsCommand c :=
      fun c hc => hcommands c (List.mem_cons_of_mem command hc)
    have hfirst : endCode ∉ startCode :: command := by
      rw [List.mem_cons, not_or]
      exact ⟨by decide, hcommand.noEnd⟩
    rw [List.flatMap_cons, frame_append] at h
    by_cases hw : endCode ∈ w
    · obtain ⟨front, behind, rfl, hfront⟩ := List.eq_append_cons_of_mem hw
      rw [List.append_assoc, List.cons_append] at h
      have hsplit : startCode :: command = front ∧ commands.flatMap frame = _ :=
        Delimited.field_unique h hfirst hfront
      exact ih hothers hsplit.2
    · have hsplit : startCode :: command = w ∧ commands.flatMap frame = _ :=
        Delimited.field_unique h hfirst hw
      have hrest := hsplit.2
      cases commands with
      | nil => cases hrest
      | cons other commands =>
        rw [List.flatMap_cons, frame_append] at hrest
        exact (List.cons.inj hrest).1.symm

end

section

variable {held held' available w : List Byte} {out : Option (List Byte)}

/-- A command that is handed out uses up the start code it began with. -/
theorem taken_count_le (h : Taken w held out) :
    out.toList.length + held.count startCode ≤ w.count startCode := by
  cases h with
  | foreign _ => exact Nat.zero_le _
  | unfinished _ => exact (Nat.zero_add _).le
  | answered _ _ => exact Nat.zero_le _
  | finished _ _ _ =>
    rw [Option.toList_some, List.length_singleton, List.count_nil, List.count_cons_self]
    omega

/-- A frame that begins behind an end code is lost. -/
theorem taken_count_lt (h : Taken w held out) {front behind : List Byte}
    (hw : w = front ++ endCode :: startCode :: behind) :
    out.toList.length + held.count startCode < w.count startCode := by
  have hend : endCode ≠ startCode := by decide
  have hcount : w.count startCode = front.count startCode + (behind.count startCode + 1) := by
    rw [hw, List.count_append, List.count_cons_of_ne hend, List.count_cons_self]
  cases h with
  | foreign _ =>
    rw [hcount]
    exact Nat.succ_pos _
  | @unfinished rest hno =>
    have hmem : endCode ∈ startCode :: rest := by
      rw [hw]
      simp
    rcases List.mem_cons.mp hmem with heq | hmem
    · exact absurd heq hend
    · exact absurd hmem hno
  | answered _ _ =>
    rw [hcount]
    exact Nat.succ_pos _
  | finished _ _ _ =>
    have hbegin : 1 ≤ front.count startCode := by
      cases front with
      | nil => exact absurd (List.cons.inj hw).1.symm hend
      | cons c front =>
        rw [← (List.cons.inj hw).1, List.count_cons_self]
        omega
    rw [hcount, Option.toList_some, List.length_singleton, List.count_nil]
    omega

/-- The piece goes on with the next frame behind an end code. -/
def LosesFrame (available : List Byte) : Prop :=
  ∃ front behind, available = front ++ endCode :: startCode :: behind

theorem takes_count (h : Takes held available held' out) :
    out.toList.length + held'.count startCode ≤
        held.count startCode + available.count startCode ∧
      (LosesFrame available → out.toList.length + held'.count startCode <
        held.count startCode + available.count startCode) := by
  unfold Takes at h
  split at h
  · rename_i hempty
    obtain ⟨rfl, rfl⟩ := h
    refine ⟨?_, ?_⟩
    · rw [hempty, List.count_nil]
      exact (Nat.zero_add _).le
    · intro hloses
      obtain ⟨front, behind, hsplit⟩ := hloses
      rw [hempty] at hsplit
      simp at hsplit
  · rw [← List.count_append]
    refine ⟨taken_count_le h.2, ?_⟩
    intro hloses
    obtain ⟨front, behind, hsplit⟩ := hloses
    have hw : held ++ available = (held ++ front) ++ endCode :: startCode :: behind := by
      rw [hsplit, List.append_assoc]
    exact taken_count_lt h.2 hw

end

section

variable {device : DeviceType} {s s' : Receiver} {held : List Byte} {calls : List Call}
  {packages : List DevPackage}

/-- No more packages are returned than start codes arrive, and fewer when a piece goes on
behind an end code. -/
theorem receivePackages_count (hs : Holds s held)
    (htime : ∀ call ∈ calls, call.waitTime ≤ MAX_WAIT_TIME)
    (hrun : receivePackages device s calls = .ok (s', packages)) :
    packages.length ≤ held.count startCode + (received calls).count startCode ∧
      ((∃ call ∈ calls, LosesFrame call.available) →
        packages.length < held.count startCode + (received calls).count startCode) := by
  induction calls generalizing s held packages with
  | nil =>
    obtain ⟨-, rfl⟩ := Prod.mk.inj (Except.ok.inj hrun)
    exact ⟨Nat.zero_le _, by simp⟩
  | cons call calls ih =>
    obtain ⟨⟨s₁, completed, replies⟩, hcall, hrun⟩ := bind_eq_ok.mp hrun
    obtain ⟨⟨s₂, others⟩, hothers, hrun⟩ := bind_eq_ok.mp hrun
    obtain ⟨rfl, rfl⟩ := Prod.mk.inj (Except.ok.inj hrun)
    obtain ⟨held₁, out, htakes⟩ := exists_takes hs hcall
    obtain ⟨t, completed', replies', hspec, hholds, hout⟩ :=
      receivePackage_spec device hs (htime call List.mem_cons_self) htakes
    rw [hcall] at hspec
    obtain ⟨rfl, rfl, -⟩ := Except.ok.inj hspec
    obtain ⟨hle, hlt⟩ := takes_count htakes
    obtain ⟨hle', hlt'⟩ := ih hholds (fun c hc => htime c (List.mem_cons_of_mem call hc)) hothers
    have hlength : completed.toList.length = out.toList.length := by
      rw [← hout]
      cases completed with
      | none => rfl
      | some package => rfl
    have hstream : (received (call :: calls)).count startCode =
        call.available.count startCode + (received calls).count startCode := by
      rw [received, List.flatMap_cons, List.count_append]
      rfl
    rw [List.length_append, hlength, hstream]
    refine ⟨by omega, ?_⟩
    intro hloses
    obtain ⟨call', hmem, hloses⟩ := hloses
    rcases List.mem_cons.mp hmem with rfl | hmem
    · have := hlt hloses
      omega
    · have := hlt' ⟨call', hmem, hloses⟩
      omega

end

section

variable {commands : List (List Byte)} {held available rest : List Byte}

/-- A piece without an end code leaves a beginning of a frame. -/
theorem exists_takes_unfinished (hcommands : ∀ command ∈ commands, IsCommand command)
    (hstream : held ++ available ++ rest = commands.flatMap frame) (hheld : endCode ∉ held)
    (hpiece : endCode ∉ available) :
    Takes held available (held ++ available) none := by
  unfold Takes
  split
  · rename_i hempty
    rw [hempty, List.append_nil]
    exact ⟨rfl, rfl⟩
  rename_i hne
  have hno : endCode ∉ held ++ available := by
    rw [List.mem_append, not_or]
    exact ⟨hheld, hpiece⟩
  cases commands with
  | nil =>
    rw [List.flatMap_nil, List.append_eq_nil_iff, List.append_eq_nil_iff] at hstream
    exact absurd hstream.1.2 hne
  | cons command commands =>
    have hcommand := hcommands command List.mem_cons_self
    have hshort := hcommand.short
    rw [List.flatMap_cons] at hstream
    have hbegins : held ++ available <+: frame command := by
      rcases List.prefix_or_prefix_of_prefix ⟨rest, hstream⟩ (List.prefix_append _ _) with h | h
      · exact h
      · exact absurd (h.subset (by simp [frame])) hno
    have hlength := hbegins.length_le
    simp only [frame, List.length_cons, List.length_append, List.length_nil] at hlength
    obtain ⟨tail, htail⟩ : ∃ tail, held ++ available = startCode :: tail := by
      obtain ⟨behind, hbehind⟩ := hbegins
      cases hw : held ++ available with
      | nil => exact absurd (List.append_eq_nil_iff.mp hw).2 hne
      | cons c tail =>
        rw [hw] at hbehind
        exact ⟨tail, by rw [(List.cons.inj hbehind).1]⟩
    have hsize : MAX_PACKAGE_SIZE = 20 := rfl
    refine ⟨?_, ?_⟩
    · rw [List.length_append]
      omega
    · rw [htail] at hno ⊢
      exact .unfinished (fun h => hno (List.mem_cons_of_mem startCode h))

/-- A piece that ends with an end code completes the first frame. -/
theorem exists_takes_finished (hcommands : ∀ command ∈ commands, IsCommand command)
    {front : List Byte} (hstream : held ++ (front ++ [endCode]) ++ rest = commands.flatMap frame)
    (hheld : endCode ∉ held) (hpiece : endCode ∉ front) :
    ∃ command others, commands = command :: others ∧ rest = others.flatMap frame ∧
      Takes held (front ++ [endCode]) [] (some command) := by
  cases commands with
  | nil =>
    simp at hstream
  | cons command others =>
    have hcommand := hcommands command List.mem_cons_self
    have hshort := hcommand.short
    have hno : endCode ∉ held ++ front := by
      rw [List.mem_append, not_or]
      exact ⟨hheld, hpiece⟩
    have hfirst : endCode ∉ startCode :: command := by
      rw [List.mem_cons, not_or]
      exact ⟨by decide, hcommand.noEnd⟩
    have hflat : (held ++ front) ++ endCode :: rest =
        (startCode :: command) ++ endCode :: others.flatMap frame := by
      rw [List.flatMap_cons, frame_append] at hstream
      simpa using hstream
    obtain ⟨hbegin, hrest⟩ := Delimited.field_unique hflat hno hfirst
    have hw : held ++ (front ++ [endCode]) = startCode :: (command ++ endCode :: []) := by
      rw [← List.append_assoc, hbegin]
      rfl
    refine ⟨command, others, rfl, hrest, ?_⟩
    unfold Takes
    rw [if_neg (by simp), hw]
    have hsize : MAX_PACKAGE_SIZE = 20 := rfl
    refine ⟨?_, .finished hcommand.noEnd hcommand.notSyn hcommand.notDes⟩
    simp only [List.length_cons, List.length_append, List.length_nil]
    omega

theorem receivePackages_cons {device : DeviceType} {s s₁ s' : Receiver} {call : Call}
    {calls : List Call} {completed : Option DevPackage} {replies : List Reply}
    {packages : List DevPackage}
    (hcall : receivePackage device s call = .ok (s₁, completed, replies))
    (hrun : receivePackages device s₁ calls = .ok (s', packages)) :
    receivePackages device s (call :: calls) = .ok (s', completed.toList ++ packages) := by
  rw [receivePackages, hcall, ok_bind]
  dsimp only
  rw [hrun, ok_bind]

/-- When no piece goes on behind an end code every command is returned. -/
theorem receivePackages_commands {device : DeviceType} {s : Receiver} {calls : List Call}
    (hcommands : ∀ command ∈ commands, IsCommand command) (hs : Holds s held)
    (hheld : endCode ∉ held) (hstream : held ++ received calls = commands.flatMap frame)
    (htime : ∀ call ∈ calls, call.waitTime ≤ MAX_WAIT_TIME)
    (hpieces : ∀ call ∈ calls, EndsAtEndCode call.available) :
    ∃ s' packages, receivePackages device s calls = .ok (s', packages) ∧
      packages.map DevPackage.command = commands := by
  induction calls generalizing s held commands with
  | nil =>
    have hnil : commands = [] := by
      rw [received, List.flatMap_nil, List.append_nil] at hstream
      cases commands with
      | nil => rfl
      | cons command commands =>
        rw [hstream] at hheld
        exact absurd (by simp [frame]) hheld
    rw [hnil]
    exact ⟨s, [], rfl, rfl⟩
  | cons call calls ih =>
    have htime' : ∀ c ∈ calls, c.waitTime ≤ MAX_WAIT_TIME :=
      fun c hc => htime c (List.mem_cons_of_mem call hc)
    have hpieces' : ∀ c ∈ calls, EndsAtEndCode c.available :=
      fun c hc => hpieces c (List.mem_cons_of_mem call hc)
    have hstream' : held ++ call.available ++ received calls = commands.flatMap frame := by
      rw [List.append_assoc]
      exact hstream
    by_cases hend : endCode ∈ call.available
    · obtain ⟨front, behind, hsplit, hfront⟩ := List.eq_append_cons_of_mem hend
      have hbehind := hpieces call List.mem_cons_self front behind hsplit
      rw [hbehind] at hsplit
      rw [hsplit] at hstream'
      obtain ⟨command, others, rfl, hrest, htakes⟩ :=
        exists_takes_finished hcommands hstream' hheld hfront
      rw [← hsplit] at htakes
      obtain ⟨s₁, completed, replies, hcall, hholds, hout⟩ :=
        receivePackage_spec device hs (htime call List.mem_cons_self) htakes
      obtain ⟨s', packages, hrun, hpackages⟩ :=
        ih (fun c hc => hcommands c (List.mem_cons_of_mem command hc)) hholds (by simp) hrest
          htime' hpieces'
      obtain ⟨package, rfl, hpackage⟩ := Option.map_eq_some_iff.mp hout
      refine ⟨s', package :: packages, receivePackages_cons hcall hrun, ?_⟩
      rw [List.map_cons, hpackage, hpackages]
    · have htakes := exists_takes_unfinished hcommands hstream' hheld hend
      obtain ⟨s₁, completed, replies, hcall, hholds, hout⟩ :=
        receivePackage_spec device hs (htime call List.mem_cons_self) htakes
      have hno : endCode ∉ held ++ call.available := by
        rw [List.mem_append, not_or]
        exact ⟨hheld, hend⟩
      obtain ⟨s', packages, hrun, hpackages⟩ := ih hcommands hholds hno hstream' htime' hpieces'
      rw [Option.map_eq_none_iff] at hout
      subst hout
      exact ⟨s', packages, receivePackages_cons hcall hrun, hpackages⟩

end

theorem holds_initDevice : Holds initDevice [] := ⟨rfl, List.nil_prefix, fun _ => rfl⟩

/-- The commands are returned in order, and no array is left, exactly when no call finds
anything behind an end code. -/
theorem commands_returned_iff (device : DeviceType) (commands : List (List Byte))
    (hcommands : ∀ command ∈ commands, IsCommand command) (calls : List Call)
    (hstream : received calls = commands.flatMap frame)
    (htime : ∀ call ∈ calls, call.waitTime ≤ MAX_WAIT_TIME) :
    (∃ s packages, receivePackages device initDevice calls = .ok (s, packages) ∧
        packages.map DevPackage.command = commands) ↔
      ∀ call ∈ calls, EndsAtEndCode call.available := by
  constructor
  · intro h
    obtain ⟨s, packages, hrun, hpackages⟩ := h
    have hcount := (receivePackages_count holds_initDevice htime hrun).2
    rw [hstream, count_frames hcommands, List.count_nil, Nat.zero_add, ← hpackages,
      List.length_map] at hcount
    intro call hcall front behind hsplit
    cases behind with
    | nil => rfl
    | cons c behind =>
      obtain ⟨before, after, rfl⟩ := List.append_of_mem hcall
      have hwhole : commands.flatMap frame =
          (received before ++ front) ++ endCode :: c :: (behind ++ received after) := by
        rw [← hstream, received, List.flatMap_append, List.flatMap_cons, hsplit]
        simp only [List.append_assoc, List.cons_append]
        rfl
      have hstart := frames_behind hcommands hwhole
      rw [hstart] at hsplit
      exact absurd (hcount ⟨call, hcall, front, behind, hsplit⟩) (Nat.lt_irrefl _)
  · intro h
    exact receivePackages_commands hcommands holds_initDevice (by simp) hstream htime h

/-- A command cut in two and one in a piece of its own, with an empty call between them. -/
def onOff : List Call :=
  [⟨startCode :: ascii "O", 0, 0⟩, ⟨ascii "n" ++ [endCode], 40, 0⟩, ⟨[], 0, 0⟩,
    ⟨frame (ascii "Off"), 0, 0⟩]

theorem isCommand_onOff : ∀ command ∈ [ascii "On", ascii "Off"], IsCommand command := by
  intro command hmem
  rcases List.mem_cons.mp hmem with rfl | hmem
  · exact ⟨by decide, by decide, by decide, by decide, by decide, by decide⟩
  · rw [List.mem_singleton.mp hmem]
    exact ⟨by decide, by decide, by decide, by decide, by decide, by decide⟩

theorem commands_returned_onOff :
    ∃ s packages, receivePackages .xbeeAt initDevice onOff = .ok (s, packages) ∧
      packages.map DevPackage.command = [ascii "On", ascii "Off"] :=
  (commands_returned_iff .xbeeAt [ascii "On", ascii "Off"] isCommand_onOff onOff (by decide)
    (by decide)).mpr (by decide)

/-- Two commands in one piece: the second is lost. -/
theorem second_command_lost :
    ¬ ∀ (device : DeviceType) (commands : List (List Byte)),
      (∀ command ∈ commands, IsCommand command) → ∀ calls : List Call,
        received calls = commands.flatMap frame →
          (∀ call ∈ calls, call.waitTime ≤ MAX_WAIT_TIME) →
            ∃ s packages, receivePackages device initDevice calls = .ok (s, packages) ∧
              packages.map DevPackage.command = commands := by
  intro hall
  have hrun : (receivePackages .xbeeAt initDevice
      [⟨frame (ascii "On") ++ frame (ascii "Off"), 0, 0⟩]).map
        (fun r => r.2.map DevPackage.command) = .ok [ascii "On"] := by
    decide
  obtain ⟨s, packages, hcalls, hpackages⟩ := hall .xbeeAt [ascii "On", ascii "Off"]
    isCommand_onOff [⟨frame (ascii "On") ++ frame (ascii "Off"), 0, 0⟩] (by decide) (by decide)
  rw [hcalls] at hrun
  have hone : packages.map DevPackage.command = [ascii "On"] := Except.ok.inj hrun
  rw [hpackages] at hone
  exact absurd hone (by decide)

end IoTRepublic.DeviceReassembly
