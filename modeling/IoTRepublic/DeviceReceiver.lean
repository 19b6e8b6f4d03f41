import IoTRepublic.SerialFrame

/-!
The receiving side of a device. Every call of `ReceivePackage` takes what the
serial port holds at that moment and puts it behind the bytes of the frame that
has begun. When an end code is among them the command in front of it is handed
out and the array starts anew, so bytes that arrived behind an end code in one
call are lost.
-/
namespace IoTRepublic.DeviceReceiver

open CheckedArray Package PackageReader SerialFrame

abbrev MAX_PACKAGE_SIZE : ℕ := 20
abbrev MAX_WAIT_TIME : ℕ := 100
abbrev maxBlankTime : ℕ := 5000

inductive DeviceType
  | unknown
  | xbeeAt
  | xbeeApi
  | bleBee
  deriving DecidableEq, Repr

def cmdSyn : List Byte := ascii "SYN"

def cmdDes : List Byte := ascii "DES"

structure DevPackage where
  content : CharArray MAX_PACKAGE_SIZE
  length : ℤ
  deriving DecidableEq

/-- The global variables of the receiver, apart from its clock values. -/
structure Receiver where
  recvBuf : CharArray MAX_PACKAGE_SIZE
  buf : CharArray MAX_PACKAGE_SIZE
  package : DevPackage
  startReceive : Bool
  startBlank : Bool
  offset : ℤ
  deriving DecidableEq

/-- What is written to the serial port. -/
inductive Reply
  | ack
  | description
  | atText
  deriving DecidableEq, Repr

/-- What a call finds: the bytes at the serial port and the times since `start_receive_time`
and since `start_blank_time`. -/
structure Call where
  available : List Byte
  waitTime : ℕ
  blankTime : ℕ

/-- The loop of `charcat` from the first byte of the target on. -/
def copyInto (base : CharArray MAX_PACKAGE_SIZE) (target : List Byte) (i starIdx length : ℤ) :
    Exec (CharArray MAX_PACKAGE_SIZE) :=
  match h : copyLoop target length.toNat i starIdx base.bytes with
  | .error e => .error e
  | .ok bytes => .ok ⟨bytes, (copyLoop_length h).trans base.size⟩

def charcat (baseBuf : CharArray MAX_PACKAGE_SIZE) (target : List Byte) (starIdx length : ℤ) :
    Exec (CharArray MAX_PACKAGE_SIZE) :=
  copyInto baseBuf target 0 starIdx length

/-- `RF_Serial->readBytes(recv_buf, len)`. -/
def readBytes (recvBuf : CharArray MAX_PACKAGE_SIZE) (available : List Byte) :
    Exec (CharArray MAX_PACKAGE_SIZE) :=
  copyInto recvBuf available 0 0 available.length

/-- The bytes that arrive during the delay are read and dropped. -/
def resetRecv (s : Receiver) : Receiver := { s with offset := 0, startReceive := false }

/-- `get_dev_package(buf, &offset, &package)`. -/
def getDevPackage (s : Receiver) : Exec (RecvResult × Receiver × List Reply) := do
  let first ← readAt s.buf.bytes 0
  if first ≠ startCode then .ok (.noerror, { s with offset := 0 }, [])
  else do
    let endIndex ← scanEnd s.buf.bytes s.offset.toNat 0
    if endIndex = 0 then .ok (.noerror, s, [])
    else do
      let content ← copyInto s.package.content s.buf.bytes 1 0 (endIndex - 1)
      let s := { s with package := ⟨content, endIndex - 1⟩ }
      if endIndex - 1 = 3 ∧ content.bytes.take 3 = cmdSyn then .ok (.noerror, resetRecv s, [.ack])
      else if endIndex - 1 = 3 ∧ content.bytes.take 3 = cmdDes then
        .ok (.noerror, resetRecv s, [.description])
      else .ok (.completed, s, [])

/-- Nothing is pending and every array is cleared. -/
def initDevice : Receiver where
  recvBuf := CharArray.zero MAX_PACKAGE_SIZE
  buf := CharArray.zero MAX_PACKAGE_SIZE
  package := ⟨CharArray.zero MAX_PACKAGE_SIZE, 0⟩
  startReceive := false
  startBlank := false
  offset := 0

/-- The first part of `ReceivePackage`, for a port that holds something. -/
def takeAvailable (s : Receiver) (available : List Byte) :
    Exec (Receiver × Option DevPackage × List Reply) := do
  let recvBuf ← readBytes s.recvBuf available
  let buf ← charcat s.buf recvBuf.bytes s.offset available.length
  let (res, s, replies) ← getDevPackage { s with
    recvBuf := recvBuf
    buf := buf
    startReceive := true
    offset := s.offset + available.length }
  if res = .completed then
    .ok ({ s with offset := 0, startReceive := false }, some s.package, replies)
  else .ok (s, none, replies)

/-- The last part of `ReceivePackage`, which is for one type of device only. -/
def watchBlank (device : DeviceType) (blankTime : ℕ) (s : Receiver) : Receiver × List Reply :=
  if device = .bleBee then
    if s.startReceive then ({ s with startBlank := false }, [])
    else if s.startBlank = false then ({ s with startBlank := true }, [])
    else if blankTime > maxBlankTime then (resetRecv s, [.atText])
    else (s, [])
  else (s, [])

/-- The returned package is the global one, which the next call may overwrite. -/
def receivePackage (device : DeviceType) (s : Receiver) (call : Call) :
    Exec (Receiver × Option DevPackage × List Reply) := do
  let (s, completed, replies) ←
    if call.available = [] then .ok (s, none, []) else takeAvailable s call.available
  let s := if s.startReceive ∧ call.waitTime > MAX_WAIT_TIME then resetRecv s else s
  let (s, more) := watchBlank device call.blankTime s
  .ok (s, completed, replies ++ more)

/-- The packages that successive calls return, each as it is before the next call. -/
def receivePackages (device : DeviceType) : Receiver → List Call →
    Exec (Receiver × List DevPackage)
  | s, [] => .ok (s, [])
  | s, call :: calls => do
    let (s, completed, _) ← receivePackage device s call
    let (s, packages) ← receivePackages device s calls
    .ok (s, completed.toList ++ packages)

/-- The bytes of a returned package. -/
def DevPackage.command (p : DevPackage) : List Byte := p.content.bytes.take p.length.toNat

theorem copyInto_eq_ok {base r : CharArray MAX_PACKAGE_SIZE} {target : List Byte}
    {i starIdx length : ℤ} :
    copyInto base target i starIdx length = .ok r ↔
      copyLoop target length.toNat i starIdx base.bytes = .ok r.bytes := by
  unfold copyInto
  split
  · rename_i e h
    rw [h]
    simp
  · rename_i bytes h
    constructor
    · intro heq
      rw [← Except.ok.inj heq]
      exact h
    · intro heq
      have hbytes := Except.ok.inj (h.symm.trans heq)
      cases r
      simp only at hbytes
      subst hbytes
      rfl

/-- A block inside both arrays is copied. -/
theorem copyInto_block (base : CharArray MAX_PACKAGE_SIZE) (target : List Byte) {i k n : ℕ}
    (htarget : i + n ≤ target.length) (hroom : k + n ≤ MAX_PACKAGE_SIZE) :
    ∃ r, copyInto base target i k n = .ok r ∧
      r.bytes = splice base.bytes k ((target.drop i).take n) := by
  have hsize := base.size
  have hcopy := copyLoop_eq target n i k base.bytes htarget (by omega)
  refine ⟨⟨splice base.bytes k ((target.drop i).take n), ?_⟩, ?_, rfl⟩
  · rw [copyLoop_length hcopy]
    exact hsize
  · rw [copyInto_eq_ok, Int.toNat_natCast]
    exact hcopy

theorem copyInto_room {base r : CharArray MAX_PACKAGE_SIZE} {target : List Byte} {i k n : ℕ}
    (h : copyInto base target i k n = .ok r) (hpos : 0 < n) : k + n ≤ MAX_PACKAGE_SIZE := by
  rw [copyInto_eq_ok, Int.toNat_natCast] at h
  have hbounds := (copyLoop_bounds target n i k base.bytes r.bytes h hpos).2
  rw [base.size] at hbounds
  exact hbounds

/-- The bytes of the frame that has begun. -/
structure Holds (s : Receiver) (held : List Byte) : Prop where
  offset : s.offset = held.length
  front : held <+: s.buf.bytes
  idle : s.startReceive = false → held = []

/-- What becomes of the held bytes: what is held then, and the command that is handed out. -/
inductive Taken : List Byte → List Byte → Option (List Byte) → Prop
  | foreign {c : Byte} {rest : List Byte} : c ≠ startCode → Taken (c :: rest) [] none
  | unfinished {rest : List Byte} : endCode ∉ rest →
      Taken (startCode :: rest) (startCode :: rest) none
  | answered {command behind : List Byte} : endCode ∉ command →
      command = cmdSyn ∨ command = cmdDes →
      Taken (startCode :: (command ++ endCode :: behind)) [] none
  | finished {command behind : List Byte} : endCode ∉ command → command ≠ cmdSyn →
      command ≠ cmdDes → Taken (startCode :: (command ++ endCode :: behind)) [] (some command)

theorem exists_taken {w : List Byte} (hw : w ≠ []) : ∃ held out, Taken w held out := by
  obtain ⟨c, rest, rfl⟩ := List.exists_cons_of_ne_nil hw
  by_cases hc : c = startCode
  · subst hc
    by_cases hend : endCode ∈ rest
    · obtain ⟨command, behind, rfl, hcommand⟩ := List.eq_append_cons_of_mem hend
      by_cases hanswer : command = cmdSyn ∨ command = cmdDes
      · exact ⟨_, _, .answered hcommand hanswer⟩
      · rw [not_or] at hanswer
        exact ⟨_, _, .finished hcommand hanswer.1 hanswer.2⟩
    · exact ⟨_, _, .unfinished hend⟩
  · exact ⟨_, _, .foreign hc⟩

theorem Taken.held_eq_nil {w held command : List Byte} (h : Taken w held (some command)) :
    held = [] := by
  cases h
  rfl

theorem holds_resetRecv (s : Receiver) : Holds (resetRecv s) [] :=
  ⟨rfl, List.nil_prefix, fun _ => rfl⟩

section

variable {s : Receiver} {w held : List Byte} {out : Option (List Byte)}

/-- The command of a whole frame, copied to the package. -/
theorem getDevPackage_frame {command behind : List Byte} (hoffset : s.offset = w.length)
    (hfront : w <+: s.buf.bytes) (hw : w = startCode :: (command ++ endCode :: behind))
    (hcommand : endCode ∉ command) :
    ∃ content : CharArray MAX_PACKAGE_SIZE, content.bytes.take command.length = command ∧
      getDevPackage s =
        if (command.length : ℤ) = 3 ∧ content.bytes.take 3 = cmdSyn then
          .ok (.noerror, resetRecv { s with package := ⟨content, command.length⟩ }, [.ack])
        else if (command.length : ℤ) = 3 ∧ content.bytes.take 3 = cmdDes then
          .ok (.noerror, resetRecv { s with package := ⟨content, command.length⟩ },
            [.description])
        else .ok (.completed, { s with package := ⟨content, command.length⟩ }, []) := by
  obtain ⟨beyond, hbeyond⟩ := hfront
  have hsize := s.buf.size
  have hlen : w.length = command.length + behind.length + 2 := by
    rw [hw]
    simp only [List.length_cons, List.length_append]
    omega
  have hbytes : s.buf.bytes = startCode :: command ++ endCode :: (behind ++ beyond) := by
    rw [← hbeyond, hw]
    simp
  have hroom : command.length + 2 ≤ MAX_PACKAGE_SIZE := by
    rw [hbytes] at hsize
    simp only [List.length_cons, List.length_append] at hsize
    omega
  have hfirst : readAt s.buf.bytes 0 = .ok startCode := by
    rw [hbytes]
    rfl
  have hbefore : endCode ∉ startCode :: command := by
    rw [List.mem_cons, not_or]
    exact ⟨by decide, hcommand⟩
  have hscan : scanEnd s.buf.bytes s.offset.toNat 0 = .ok (command.length + 1 : ℤ) := by
    have hfound := scanEnd_first [] (startCode :: command) (behind ++ beyond) w.length hbefore
      (by rw [List.length_cons]; omega)
    rw [List.nil_append, ← hbytes, List.length_nil, List.length_cons] at hfound
    rw [hoffset, Int.toNat_natCast]
    refine hfound.trans ?_
    push_cast
    rw [Int.zero_add]
  have hcopied : ∃ content, copyInto s.package.content s.buf.bytes (1 : ℕ) (0 : ℕ)
      command.length = .ok content ∧
      content.bytes = splice s.package.content.bytes 0 ((s.buf.bytes.drop 1).take command.length) :=
    copyInto_block _ _ (by omega) (by omega)
  obtain ⟨content, hcopy, hcontent⟩ := hcopied
  refine ⟨content, ?_, ?_⟩
  · have hblock : (s.buf.bytes.drop 1).take command.length = command := by
      rw [hbytes, List.cons_append, List.drop_one, List.tail_cons, List.take_left]
    rw [hcontent, hblock, splice_zero, List.take_left]
  · have hindex : (command.length + 1 : ℤ) - 1 = command.length := by omega
    have hne : ¬ (command.length + 1 : ℤ) = 0 := by omega
    have hcopy' : copyInto s.package.content s.buf.bytes 1 0 (command.length : ℤ) = .ok content :=
      hcopy
    rw [getDevPackage, hfirst, ok_bind, if_neg (by simp), hscan, ok_bind, if_neg hne, hindex,
      hcopy', ok_bind]

/-- One look at the held bytes. -/
theorem getDevPackage_spec (hoffset : s.offset = w.length) (hfront : w <+: s.buf.bytes)
    (hstarted : s.startReceive = true) (ht : Taken w held out) :
    ∃ res s' replies, getDevPackage s = .ok (res, s', replies) ∧
      (out = none → res = .noerror ∧ Holds s' held) ∧
      ∀ command, out = some command → res = .completed ∧ s'.package.command = command := by
  have hidle : s.startReceive = false → (w : List Byte) = [] := by
    intro h
    rw [hstarted] at h
    cases h
  cases ht with
  | @foreign c rest hc =>
    have hfirst : readAt s.buf.bytes 0 = .ok c := by
      obtain ⟨beyond, hbeyond⟩ := hfront
      rw [← hbeyond]
      rfl
    refine ⟨.noerror, { s with offset := 0 }, [], ?_, ?_, by simp⟩
    · rw [getDevPackage, hfirst, ok_bind, if_pos hc]
    · intro _
      exact ⟨rfl, rfl, List.nil_prefix, fun _ => rfl⟩
  | @unfinished rest hend =>
    obtain ⟨beyond, hbeyond⟩ := hfront
    have hfirst : readAt s.buf.bytes 0 = .ok startCode := by
      rw [← hbeyond]
      rfl
    have hnone : endCode ∉ startCode :: rest := by
      rw [List.mem_cons, not_or]
      exact ⟨by decide, hend⟩
    have hscan : scanEnd s.buf.bytes s.offset.toNat 0 = .ok 0 := by
      rw [hoffset, Int.toNat_natCast, ← hbeyond]
      exact scanEnd_none [] (startCode :: rest) beyond hnone
    refine ⟨.noerror, s, [], ?_, ?_, by simp⟩
    · rw [getDevPackage, hfirst, ok_bind, if_neg (by simp), hscan, ok_bind, if_pos rfl]
    · intro _
      exact ⟨rfl, hoffset, ⟨beyond, hbeyond⟩, hidle⟩
  | @answered command behind hend hanswer =>
    obtain ⟨content, hcontent, hread⟩ := getDevPackage_frame hoffset hfront rfl hend
    have hthree : command.length = 3 := by
      rcases hanswer with rfl | rfl
      · decide
      · decide
    rw [hthree] at hcontent hread
    rw [hcontent] at hread
    rcases hanswer with hsyn | hdes
    · rw [if_pos ⟨rfl, hsyn⟩] at hread
      exact ⟨_, _, _, hread, fun _ => ⟨rfl, holds_resetRecv _⟩, by simp⟩
    · have hsyn : command ≠ cmdSyn := by
        rw [hdes]
        decide
      rw [if_neg (fun h => hsyn h.2), if_pos ⟨rfl, hdes⟩] at hread
      exact ⟨_, _, _, hread, fun _ => ⟨rfl, holds_resetRecv _⟩, by simp⟩
  | @finished command behind hend hsyn hdes =>
    obtain ⟨content, hcontent, hread⟩ := getDevPackage_frame hoffset hfront rfl hend
    have hother : ∀ text, command ≠ text →
        ¬ ((command.length : ℤ) = 3 ∧ content.bytes.take 3 = text) := by
      intro text hne h
      have hthree : command.length = 3 := by omega
      rw [hthree] at hcontent
      exact hne (hcontent.symm.trans h.2)
    rw [if_neg (hother cmdSyn hsyn), if_neg (hother cmdDes hdes)] at hread
    refine ⟨_, _, _, hread, by simp, ?_⟩
    intro text htext
    refine ⟨rfl, ?_⟩
    rw [← Option.some.inj htext, DevPackage.command, Int.toNat_natCast]
    exact hcontent

end

section

variable {s : Receiver} {held held' available : List Byte} {out : Option (List Byte)}

/-- The bytes at the port are stored behind those that are held. -/
theorem takeAvailable_spec (hs : Holds s held)
    (hroom : (held ++ available).length ≤ MAX_PACKAGE_SIZE)
    (ht : Taken (held ++ available) held' out) :
    ∃ s' completed replies, takeAvailable s available = .ok (s', completed, replies) ∧
      Holds s' held' ∧ completed.map DevPackage.command = out := by
  obtain ⟨hoffset, ⟨beyond, hbeyond⟩, -⟩ := hs
  rw [List.length_append] at hroom
  obtain ⟨recvBuf, hread, hrecv⟩ := copyInto_block s.recvBuf available (i := 0) (k := 0)
    (n := available.length) (by omega) (by omega)
  rw [List.drop_zero, List.take_length, splice_zero] at hrecv
  obtain ⟨buf, hstore, hbuf⟩ := copyInto_block s.buf recvBuf.bytes (i := 0) (k := held.length)
    (n := available.length) (by rw [hrecv, List.length_append]; omega) hroom
  have hfront : held ++ available <+: buf.bytes := by
    rw [hbuf, List.drop_zero, hrecv, List.take_left, ← hbeyond, splice, List.take_left]
    exact List.prefix_append _ _
  obtain ⟨res, s', replies, hget, hnone, hsome⟩ := getDevPackage_spec
    (s := { s with
      recvBuf := recvBuf
      buf := buf
      startReceive := true
      offset := s.offset + available.length })
    (by
      change s.offset + available.length = _
      rw [hoffset, List.length_append]
      push_cast
      rfl) hfront rfl ht
  have hcharcat : charcat s.buf recvBuf.bytes s.offset available.length = .ok buf := by
    rw [hoffset]
    exact hstore
  have hreadBytes : readBytes s.recvBuf available = .ok recvBuf := hread
  rw [takeAvailable, hreadBytes, ok_bind, hcharcat, ok_bind, hget, ok_bind]
  cases out with
  | none =>
    obtain ⟨hres, hholds⟩ := hnone rfl
    rw [hres]
    exact ⟨s', none, replies, rfl, hholds, rfl⟩
  | some command =>
    obtain ⟨hres, hcommand⟩ := hsome command rfl
    rw [hres, ht.held_eq_nil]
    refine ⟨_, _, _, rfl, ⟨rfl, List.nil_prefix, fun _ => rfl⟩, ?_⟩
    rw [Option.map_some, hcommand]

/-- Bytes that were stored had room. -/
theorem takeAvailable_room (hs : Holds s held) (hne : available ≠ [])
    {r : Receiver × Option DevPackage × List Reply} (h : takeAvailable s available = .ok r) :
    (held ++ available).length ≤ MAX_PACKAGE_SIZE := by
  obtain ⟨recvBuf, -, h⟩ := bind_eq_ok.mp h
  obtain ⟨buf, hstore, -⟩ := bind_eq_ok.mp h
  rw [hs.offset] at hstore
  rw [List.length_append]
  exact copyInto_room hstore (List.length_pos_iff.mpr hne)

theorem Holds.watchBlank (hs : Holds s held) (device : DeviceType) (blankTime : ℕ) :
    Holds (watchBlank device blankTime s).1 held := by
  unfold DeviceReceiver.watchBlank
  split
  · split
    · exact ⟨hs.offset, hs.front, hs.idle⟩
    · rename_i hidle
      have hnil := hs.idle (Bool.eq_false_iff.mpr hidle)
      split
      · exact ⟨hs.offset, hs.front, hs.idle⟩
      · split
        · rw [hnil]
          exact holds_resetRecv s
        · exact hs
  · exact hs

/-- What one call does with the held bytes, if there is no time-out. -/
def Takes (held available held' : List Byte) (out : Option (List Byte)) : Prop :=
  if available = [] then held' = held ∧ out = none
  else (held ++ available).length ≤ MAX_PACKAGE_SIZE ∧ Taken (held ++ available) held' out

variable {device : DeviceType} {call : Call}

/-- A call whose bytes have room. -/
theorem receivePackage_spec (device : DeviceType) (hs : Holds s held)
    (htime : call.waitTime ≤ MAX_WAIT_TIME) (ht : Takes held call.available held' out) :
    ∃ s' completed replies, receivePackage device s call = .ok (s', completed, replies) ∧
      Holds s' held' ∧ completed.map DevPackage.command = out := by
  have hnot : ∀ s₁ : Receiver, ¬ (s₁.startReceive ∧ call.waitTime > MAX_WAIT_TIME) :=
    fun s₁ h => by omega
  unfold Takes at ht
  unfold receivePackage
  by_cases hempty : call.available = []
  · rw [if_pos hempty] at ht
    obtain ⟨rfl, rfl⟩ := ht
    rw [if_pos hempty, ok_bind]
    dsimp only
    rw [if_neg (hnot s)]
    exact ⟨_, _, _, rfl, hs.watchBlank device call.blankTime, rfl⟩
  · rw [if_neg hempty] at ht
    obtain ⟨s', completed, replies, htake, hholds, hcommand⟩ :=
      takeAvailable_spec hs ht.1 ht.2
    rw [if_neg hempty, htake, ok_bind]
    dsimp only
    rw [if_neg (hnot s')]
    exact ⟨_, _, _, rfl, hholds.watchBlank device call.blankTime, hcommand⟩

/-- A call that stayed inside its arrays. -/
theorem exists_takes (hs : Holds s held) {r : Receiver × Option DevPackage × List Reply}
    (h : receivePackage device s call = .ok r) :
    ∃ held' out, Takes held call.available held' out := by
  unfold Takes
  by_cases hempty : call.available = []
  · exact ⟨held, none, by simp [hempty]⟩
  · unfold receivePackage at h
    rw [if_neg hempty] at h
    obtain ⟨first, hfirst, -⟩ := bind_eq_ok.mp h
    have hroom := takeAvailable_room hs hempty hfirst
    obtain ⟨held', out, ht⟩ := exists_taken (List.append_ne_nil_of_right_ne_nil held hempty)
    refine ⟨held', out, ?_⟩
    rw [if_neg hempty]
    exact ⟨hroom, ht⟩

end

end IoTRepublic.DeviceReceiver
