import IoTRepublic.ReadRequest
import IoTRepublic.Reassembly

/-!
The loops in which the four brokers listen to the manager. Each puts what `recv`
returns behind the bytes of `temp_buf`, takes the packages that have arrived
whole off its front, and does something of its own with every one of them. Unlike
the manager they do not look whether a piece still fits. What is held when a
piece arrives is the unfinished tail of the stream, so the piece fits exactly
when that tail leaves room for it.
-/
namespace IoTRepublic.ManagerListeners

open CheckedArray Package PackageReader CreatedPackage Command Manager Framing Runs ReadRequest
open Reassembly hiding Takes Waits isReader

/-- What the fake broker makes up for a device. -/
def fakeValue (rand : ℕ) : CommandType → List Byte
  | .readRequest => DecimalText.ofInt (rand % 100 : ℕ)
  | .write => ascii "OK"
  | _ => []

/-- One round of the `do ... while` of the fake broker, which has no devices. -/
def fakerListenToManagerLoop (rand : ℕ) (memory : Memory) (s : Loop) : Exec Round := do
  let reading ← getCompletedPackage s.tempBuf s.offset s.recvPackage
  let s := { s with
    tempBuf := reading.buffer
    offset := reading.bufferLength
    recvPackage := reading.packageInfo }
  if reading.result = .completed then do
    let recvCmd ← decodeIotCmd memory.decoding.json reading.packageInfo.data generateIotCommand
    let value := fakeValue rand recvCmd.cmdType
    let response ← sendResponse memory reading.packageInfo recvCmd value value.length
    .ok ⟨.completed, s, none, some response⟩
  else .ok ⟨reading.result, s, none, none⟩

inductive Listener
  | xbeeApi
  | xbeeAt
  | ble
  | faker
  deriving DecidableEq, Repr

/-- A round that a listener can take, whatever its table of devices, what the devices do and
what the memory held that it has not written. -/
def Listener.TakesRound (listener : Listener) (s : Loop) (r : Round) : Prop :=
  match listener with
  | .xbeeApi => ∃ packets devices memory,
      xbeeApiListenToManagerLoop packets devices memory s = .ok r
  | .xbeeAt => ∃ connected polls devices memory,
      xbeeAtListenToManagerLoop connected polls devices memory s = .ok r
  | .ble => ∃ connected polls devices memory,
      bleListenToManagerLoop connected polls devices memory s = .ok r
  | .faker => ∃ rand memory, fakerListenToManagerLoop rand memory s = .ok r

/-- The `do ... while` loop: rounds until one finds no completed package. -/
inductive Drained (takesRound : Loop → Round → Prop) : Loop → Loop → Prop
  | stop {s : Loop} {r : Round} :
      takesRound s r → r.result ≠ .completed → Drained takesRound s r.loop
  | again {s t : Loop} {r : Round} :
      takesRound s r → r.result = .completed → Drained takesRound r.loop t →
        Drained takesRound s t

/-- The variables before the first `recv`. -/
def listenStart : Loop where
  tempBuf := List.replicate MAXRECV 0
  offset := 0
  recvPackage := generateIotPackage
  recvBuf := List.replicate recvBufSize 0
  len := 0

/-- `recv` puts a piece in front of `temp_recv`, where earlier pieces have left their bytes. -/
def Listener.Step (listener : Listener) (s : Loop) (piece : List Byte) (t : Loop) : Prop :=
  0 < piece.length ∧ ∃ behind tempBuf,
    (piece ++ behind).length = MAXRECV ∧
    charcat s.tempBuf (piece ++ behind) s.offset piece.length = .ok tempBuf ∧
    Drained listener.TakesRound
      { s with tempBuf := tempBuf, offset := s.offset + piece.length } t

/-- Whatever a round does with a package, it leaves the buffer as the reader does. -/
theorem Listener.TakesRound.reads {listener : Listener} {s : Loop} {r : Round}
    (h : listener.TakesRound s r) :
    ∃ reading, getCompletedPackage s.tempBuf s.offset s.recvPackage = .ok reading ∧
      r.result = reading.result ∧ r.loop.tempBuf = reading.buffer ∧
      r.loop.offset = reading.bufferLength := by
  have hshared : ∀ {connected : Bool} {answers : CommandType → Bool}
      {sendCommand : List Byte → ℤ → Exec (List Byte)}
      {receive : List Byte → ℤ → Exec SerialFrame.Received} {devices : DeviceIps}
      {memory : Memory}, listenToManagerLoop connected answers sendCommand receive devices
        memory s = .ok r →
      ∃ reading, getCompletedPackage s.tempBuf s.offset s.recvPackage = .ok reading ∧
        r.result = reading.result ∧ r.loop.tempBuf = reading.buffer ∧
        r.loop.offset = reading.bufferLength := by
    intro connected answers sendCommand receive devices memory hround
    obtain ⟨reading, hread, hround⟩ := bind_eq_ok.mp hround
    refine ⟨reading, hread, ?_⟩
    split at hround
    · rename_i hhandled
      obtain ⟨cmd, -, hround⟩ := bind_eq_ok.mp hround
      obtain ⟨cmdId, -, hround⟩ := bind_eq_ok.mp hround
      obtain ⟨idText, -, hround⟩ := bind_eq_ok.mp hround
      obtain ⟨sent, -, hround⟩ := bind_eq_ok.mp hround
      rw [hhandled.1]
      split at hround
      · obtain ⟨received, -, hround⟩ := bind_eq_ok.mp hround
        split at hround
        · obtain ⟨response, -, hround⟩ := bind_eq_ok.mp hround
          obtain rfl := Except.ok.inj hround
          exact ⟨rfl, rfl, rfl⟩
        · obtain rfl := Except.ok.inj hround
          exact ⟨rfl, rfl, rfl⟩
      · obtain rfl := Except.ok.inj hround
        exact ⟨rfl, rfl, rfl⟩
    · obtain rfl := Except.ok.inj hround
      exact ⟨rfl, rfl, rfl⟩
  cases listener with
  | xbeeApi =>
    obtain ⟨packets, devices, memory, hround⟩ := h
    exact hshared hround
  | xbeeAt =>
    obtain ⟨connected, polls, devices, memory, hround⟩ := h
    exact hshared hround
  | ble =>
    obtain ⟨connected, polls, devices, memory, hround⟩ := h
    exact hshared hround
  | faker =>
    obtain ⟨rand, memory, hround⟩ := h
    obtain ⟨reading, hread, hround⟩ := bind_eq_ok.mp hround
    refine ⟨reading, hread, ?_⟩
    split at hround
    · rename_i hcompleted
      obtain ⟨cmd, -, hround⟩ := bind_eq_ok.mp hround
      obtain ⟨response, -, hround⟩ := bind_eq_ok.mp hround
      obtain rfl := Except.ok.inj hround
      exact ⟨hcompleted.symm, rfl, rfl⟩
    · obtain rfl := Except.ok.inj hround
      exact ⟨rfl, rfl, rfl⟩

/-- A listener whose reader finds no package just goes on listening. -/
theorem Listener.exists_takesRound (listener : Listener) {s : Loop} {reading : Reading}
    (hread : getCompletedPackage s.tempBuf s.offset s.recvPackage = .ok reading)
    (hwaits : reading.result ≠ .completed) :
    ∃ r, listener.TakesRound s r ∧ r.result ≠ .completed := by
  refine ⟨⟨reading.result, { s with
    tempBuf := reading.buffer
    offset := reading.bufferLength
    recvPackage := reading.packageInfo }, none, none⟩, ?_, hwaits⟩
  cases listener with
  | xbeeApi =>
    refine ⟨[], fun _ => none, blankMemory, ?_⟩
    simp only [xbeeApiListenToManagerLoop, listenToManagerLoop, hread, ok_bind, hwaits,
      false_and, ↓reduceIte]
  | xbeeAt =>
    refine ⟨true, [], fun _ => none, blankMemory, ?_⟩
    simp only [xbeeAtListenToManagerLoop, listenToManagerLoop, hread, ok_bind, hwaits,
      false_and, ↓reduceIte]
  | ble =>
    refine ⟨true, [], fun _ => none, blankMemory, ?_⟩
    simp only [bleListenToManagerLoop, listenToManagerLoop, hread, ok_bind, hwaits,
      false_and, ↓reduceIte]
  | faker =>
    refine ⟨0, blankMemory, ?_⟩
    simp only [fakerListenToManagerLoop, hread, ok_bind, hwaits, ↓reduceIte]

/-- The buffer of a listener and the count in it, as the reader is given them. -/
def received (s : Loop) : PackageBuffer := ⟨s.tempBuf, s.offset⟩

theorem holds_start : Holds (received listenStart) [] := holds_generated

/-- The package that the reader fills is the one of the round before. -/
def Takes (held : List Byte) (_ : SentPackage) (rest : List Byte) : Prop :=
  ∀ b info, Holds b held → ∃ b' q,
    getCompletedPackage b.tempBuffer b.receiveCount info =
      .ok ⟨.completed, b'.tempBuffer, b'.receiveCount, q⟩ ∧ Holds b' rest

def Waits (held : List Byte) : Prop :=
  ∀ b info, Holds b held → ∃ q,
    getCompletedPackage b.tempBuffer b.receiveCount info =
      .ok ⟨.noerror, b.tempBuffer, b.receiveCount, q⟩

theorem isReader : IsReader SentPackage.bytes Takes Waits where
  empty := fun _ info hb => hb.reads_nothing info
  complete := by
    intro m rest b info hb
    obtain ⟨b', hread, hb'⟩ := hb.reads_package m info
    exact ⟨b', _, hread, hb'⟩
  unfinished := fun _ _ hpart hlt _ info hb => hb.reads_part hpart hlt info

section

variable {listener : Listener} {held left : List Byte} {ms : List SentPackage} {s t : Loop}

/-- The loop leaves in the buffer what the reader does not drain. -/
theorem Drained.holds (hdrained : Drained listener.TakesRound s t)
    (hdrains : Drains Takes Waits held ms left) (hs : Holds (received s) held) :
    Holds (received t) left := by
  induction hdrains generalizing s with
  | stop hwaits =>
    obtain ⟨q, hread⟩ := hwaits (received s) s.recvPackage hs
    cases hdrained with
    | stop hround _ =>
      obtain ⟨reading, hreading, -, hbuf, hoffset⟩ := hround.reads
      obtain rfl := Except.ok.inj (hreading.symm.trans hread)
      rw [received, hbuf, hoffset]
      exact hs
    | again hround hresult _ =>
      obtain ⟨reading, hreading, hsame, -, -⟩ := hround.reads
      obtain rfl := Except.ok.inj (hreading.symm.trans hread)
      rw [hsame] at hresult
      cases hresult
  | take htakes _ ih =>
    obtain ⟨b, q, hread, hb⟩ := htakes (received s) s.recvPackage hs
    cases hdrained with
    | stop hround hresult =>
      obtain ⟨reading, hreading, hsame, -, -⟩ := hround.reads
      obtain rfl := Except.ok.inj (hreading.symm.trans hread)
      exact absurd hsame hresult
    | again hround _ hmore =>
      obtain ⟨reading, hreading, -, hbuf, hoffset⟩ := hround.reads
      obtain rfl := Except.ok.inj (hreading.symm.trans hread)
      refine ih hmore ?_
      rw [received, hbuf, hoffset]
      exact hb

end

section

variable {listener : Listener} {messages : List SentPackage} {s t : Loop}

/-- A piece that was stored has left the unfinished tail of the stream in the buffer. -/
theorem Listener.Step.holds {got piece : List Byte} (hstep : listener.Step s piece t)
    (hstream : got ++ piece <+: streamOf SentPackage.bytes messages)
    (hs : Holds (received s) (pending SentPackage.bytes messages got)) :
    Holds (received t) (pending SentPackage.bytes messages (got ++ piece)) := by
  obtain ⟨hpos, behind, tempBuf, -, hcopy, hdrained⟩ := hstep
  have hroom : (pending SentPackage.bytes messages got).length + piece.length ≤ MAXRECV := by
    have hcount : s.offset = ((pending SentPackage.bytes messages got).length : ℕ) := hs.count
    have hsize : s.tempBuf.length = MAXRECV := hs.size
    rw [charcat, hcount, Int.toNat_natCast, ← Int.natCast_zero] at hcopy
    have hbounds := copyLoop_bounds _ _ _ _ _ _ hcopy hpos
    omega
  obtain ⟨buffer, hstored, hholds⟩ := charcat_holds hs (piece ++ behind) (n := piece.length)
    (by rw [List.length_append]; omega) hroom
  obtain rfl := Except.ok.inj (hcopy.symm.trans hstored)
  rw [List.take_left] at hholds
  obtain ⟨ms, left, hdrains, hstands⟩ := isReader.drains_piece
    (stands_arrived SentPackage.bytes messages got ((List.prefix_append ..).trans hstream)) hstream
  rw [← hstands.unique.2]
  exact hdrained.holds hdrains hholds

theorem run_holds {pieces : List (List Byte)} (hrun : Run listener.Step listenStart pieces s)
    (hstream : pieces.flatten <+: streamOf SentPackage.bytes messages) :
    Holds (received s) (pending SentPackage.bytes messages pieces.flatten) := by
  induction hrun with
  | nil =>
    rw [List.flatten_nil, pending, List.drop_nil]
    exact holds_start
  | snoc _ hstep ih =>
    rw [List.flatten_append, List.flatten_singleton] at hstream ⊢
    exact hstep.holds hstream (ih ((List.prefix_append ..).trans hstream))

/-- Pieces that leave room for the longest package and its unfinished beginning always fit. -/
theorem run_room_of_short {pieces : List (List Byte)}
    (hrun : Run listener.Step listenStart pieces s)
    (hstream : pieces.flatten <+: streamOf SentPackage.bytes messages)
    (hsmall : ∀ m ∈ messages, m.bytes.length ≤ MAXPACKETSIZE) {piece : List Byte}
    (hshort : piece.length + MAXPACKETSIZE ≤ MAXRECV + 1) :
    s.offset + piece.length ≤ MAXRECV := by
  have hholds := run_holds hrun hstream
  have hpending := pending_length_lt hstream (by decide : 0 < MAXPACKETSIZE) hsmall
  have hcount : s.offset = ((pending SentPackage.bytes messages pieces.flatten).length : ℕ) :=
    hholds.count
  omega

/-- At every `charcat` of every run, the piece fits exactly when the bytes received after the
last whole package leave room for it. -/
theorem charcat_within_iff {pieces : List (List Byte)} {piece : List Byte}
    (hrun : Run listener.Step listenStart pieces s)
    (hstream : pieces.flatten ++ piece <+: streamOf SentPackage.bytes messages) :
    s.offset + piece.length ≤ MAXRECV ↔
      (pending SentPackage.bytes messages pieces.flatten).length + piece.length ≤ MAXRECV := by
  have hcount : s.offset = ((pending SentPackage.bytes messages pieces.flatten).length : ℕ) :=
    (run_holds hrun ((List.prefix_append ..).trans hstream)).count
  omega

end

/-- A proper beginning of a package that arrives first is stored by every listener. -/
theorem exists_first_step (listener : Listener) (m : SentPackage) {piece : List Byte}
    (hpart : piece <+: m.bytes) (hpos : 0 < piece.length) (hlt : piece.length < m.bytes.length) :
    ∃ s, listener.Step listenStart piece s := by
  have hsize := m.bytes_eq.2
  obtain ⟨tempBuf, hcopy, hholds⟩ := charcat_holds holds_start (recvBuffer piece)
    (n := piece.length) (by rw [recvBuffer, List.length_append]; omega) (by simp; omega)
  rw [List.nil_append, recvBuffer, List.take_left] at hholds
  obtain ⟨q, hread⟩ := isReader.unfinished m piece hpart hlt _ generateIotPackage hholds
  obtain ⟨r, hround, hresult⟩ := listener.exists_takesRound
    (s := { listenStart with tempBuf := tempBuf, offset := 0 + (piece.length : ℤ) }) hread (by simp)
  refine ⟨r.loop, hpos, List.replicate (MAXRECV - piece.length) 0, tempBuf, ?_, hcopy,
    .stop hround hresult⟩
  rw [List.length_append, List.length_replicate]
  omega

/-- The rest of a package behind its first five bytes, at the BLE broker: it stays inside. -/
theorem charcat_within_two_pieces :
    ∃ (m : SentPackage) (s : Loop), m.data = [0, 3, 0] ∧
      Run Listener.ble.Step listenStart [m.bytes.take 5] s ∧
      (pending SentPackage.bytes [m] [m.bytes.take 5].flatten).length = 5 ∧
      s.offset + (m.bytes.drop 5).length ≤ MAXRECV := by
  obtain ⟨m, -, -, hdata⟩ := SentPackage.exists_of (ascii "A") (ascii "B") [0, 3, 0]
    isAddress_A isAddress_B (by decide)
  have hheader := m.isCreated.header_length_le m.sor m.des
  have hlong : 7 ≤ m.bytes.length := by
    rw [m.bytes_eq.1, m.isCreated.wireBytes_length m.sor m.des]
    omega
  have htake : (m.bytes.take 5).length = 5 := by
    rw [List.length_take]
    omega
  obtain ⟨s, hs⟩ := exists_first_step .ble m (List.take_prefix 5 m.bytes) (by omega) (by omega)
  have hrun : Run Listener.ble.Step listenStart [m.bytes.take 5] s := (Run.nil _).snoc hs
  have hpending : (pending SentPackage.bytes [m] [m.bytes.take 5].flatten).length = 5 := by
    rw [List.flatten_singleton, pending_cons_unfinished SentPackage.bytes m [] _ (by omega), htake]
  have hstream : [m.bytes.take 5].flatten ++ m.bytes.drop 5 <+: streamOf SentPackage.bytes [m] := by
    rw [List.flatten_singleton, List.take_append_drop, streamOf_cons, streamOf_nil,
      List.append_nil]
  refine ⟨m, s, hdata, hrun, hpending, (charcat_within_iff hrun hstream).mpr ?_⟩
  have hfits := m.bytes_eq.2
  rw [hpending, List.length_drop]
  omega

/-- Every broker stores the first byte of three packages and is then handed the next 2000. -/
theorem exists_overflow (listener : Listener) :
    ∃ (messages : List SentPackage) (first piece : List Byte) (s : Loop),
      (∀ m ∈ messages, m.bytes.length ≤ MAXPACKETSIZE) ∧
      first.length = 1 ∧ piece.length = MAXRECV ∧
      first ++ piece <+: streamOf SentPackage.bytes messages ∧
      Run listener.Step listenStart [first] s ∧ ¬ s.offset + piece.length ≤ MAXRECV := by
  obtain ⟨m, -, -, hdata⟩ := SentPackage.exists_of (ascii "A") (ascii "B")
    (List.replicate 900 0) isAddress_A isAddress_B (by rw [List.length_replicate]; decide)
  have hheader := m.isCreated.header_length_le m.sor m.des
  have hlength : m.bytes.length =
      (m.isCreated.header m.sor m.des).bytes.length + m.data.length + 2 := by
    rw [m.bytes_eq.1, m.isCreated.wireBytes_length m.sor m.des]
  have hdataLength : m.data.length = 900 := by
    rw [hdata, List.length_replicate]
  have hfirst : (m.bytes.take 1).length = 1 := by
    rw [List.length_take]
    omega
  obtain ⟨s, hs⟩ := exists_first_step listener m (List.take_prefix 1 m.bytes) (by omega) (by omega)
  have hrun : Run listener.Step listenStart [m.bytes.take 1] s := (Run.nil _).snoc hs
  have hpiece : ((m.bytes.drop 1 ++ (m.bytes ++ m.bytes)).take MAXRECV).length = MAXRECV := by
    have hmax : MAXRECV = 2000 := rfl
    simp only [List.length_take, List.length_append, List.length_drop]
    omega
  have hstream : [m.bytes.take 1].flatten ++ (m.bytes.drop 1 ++ (m.bytes ++ m.bytes)).take MAXRECV
      <+: streamOf SentPackage.bytes [m, m, m] := by
    have hwhole : streamOf SentPackage.bytes [m, m, m] =
        m.bytes.take 1 ++ (m.bytes.drop 1 ++ (m.bytes ++ m.bytes)) := by
      rw [← List.append_assoc, List.take_append_drop]
      simp
    rw [hwhole, List.flatten_singleton]
    exact (List.prefix_append_right_inj _).mpr (List.take_prefix ..)
  refine ⟨[m, m, m], _, _, s, ?_, hfirst, hpiece, by simpa using hstream, hrun, ?_⟩
  · intro m' hm'
    obtain rfl : m' = m := by simpa using hm'
    have hmax : MAXPACKETSIZE = 1024 := rfl
    omega
  · have hholds : Holds (received s)
        (pending SentPackage.bytes [m, m, m] [m.bytes.take 1].flatten) :=
      run_holds hrun ((List.prefix_append ..).trans hstream)
    have hcount := hholds.count
    have hpending : pending SentPackage.bytes [m, m, m] [m.bytes.take 1].flatten =
        m.bytes.take 1 := by
      rw [List.flatten_singleton, pending_cons_unfinished _ _ _ _ (by omega)]
    rw [hpending, hfirst] at hcount
    have hoffset : s.offset = 1 := hcount
    omega

/-- No broker keeps the bytes of its stream within the buffer. -/
theorem charcat_overflows :
    ¬ ∃ listener : Listener, ∀ (messages : List SentPackage) (pieces : List (List Byte))
      (piece : List Byte) (s : Loop), (∀ m ∈ messages, m.bytes.length ≤ MAXPACKETSIZE) →
      (∀ p ∈ pieces ++ [piece], 1 ≤ p.length ∧ p.length ≤ MAXRECV) →
      (pieces ++ [piece]).flatten <+: streamOf SentPackage.bytes messages →
      Run listener.Step listenStart pieces s → s.offset + piece.length ≤ MAXRECV := by
  rintro ⟨listener, hclaim⟩
  obtain ⟨messages, first, piece, s, hsizes, hfirst, hpiece, hstream, hrun, hover⟩ :=
    exists_overflow listener
  have hmax : MAXRECV = 2000 := rfl
  refine hover (hclaim messages [first] piece s hsizes ?_ (by simpa using hstream) hrun)
  intro p hp
  have hone : p = first ∨ p = piece := by simpa using hp
  rcases hone with rfl | rfl
  · omega
  · omega

end IoTRepublic.ManagerListeners
