import IoTRepublic.Foundation.Runs
import IoTRepublic.Manager

/-!
Progress of the receive loop on arbitrary bytes. The reader consumes the sum of
two numbers that it takes from the header as they are. A call makes progress
exactly when the header at the front of the buffer is harmless; where all headers
are, the loop ends. No receive count leaves its range.
-/
namespace IoTRepublic.DrainProgress

open CheckedArray DecimalText Package PackageReader ReaderOutcome Manager Runs

/-- A call comes to a result, and a completed package leaves fewer bytes, not below none. -/
def Progress (buffer : List Byte) (bufferLength : ℤ) : Prop :=
  ∃ r, getCompletedPackage buffer bufferLength generateIotPackage = .ok r ∧
    (r.result = .completed → 0 ≤ r.bufferLength ∧ r.bufferLength < bufferLength)

/-- The checksum stands at `offset`. -/
def ChecksumAt (buffer : List Byte) (offset : ℕ) : Prop :=
  (buffer.drop offset).take 2 = checksumBytes (buffer.take offset)

/-- The fields of a header fit the arrays they are copied to, its two lengths are numbers
whose sum is one, a package said to be there lies inside the buffer, and a package whose
checksum stands where the lengths say is not empty. -/
structure HarmlessHeader (buffer : List Byte) (bufferLength : ℤ) (h : Header) : Prop where
  version : h.version.length < VERSION_CHAR_SIZE
  source : h.source.length < IP_ADDR_SIZE
  destination : h.destination.length < IP_ADDR_SIZE
  headLen : h.headLen.length ≤ tempBufferSize
  dataLen : h.dataLen.length ≤ tempBufferSize
  lengths : ∃ headerLength dataLength : ℤ,
    atoi (tempOf h.headLen) = .ok headerLength ∧ atoi (tempOf h.dataLen) = .ok dataLength ∧
    -2147483648 ≤ headerLength + dataLength ∧ headerLength + dataLength + 2 ≤ 2147483647 ∧
    (headerLength + dataLength + 2 ≤ bufferLength →
      0 ≤ headerLength ∧ headerLength.toNat + dataLength.toNat + 2 ≤ buffer.length ∧
      (ChecksumAt buffer (headerLength.toNat + dataLength.toNat) →
        0 < headerLength + dataLength + 2))

/-- Whatever header the received bytes begin with is harmless. -/
def Harmless (buffer : List Byte) (bufferLength : ℤ) : Prop :=
  ∀ h : Header, WholeHeader buffer bufferLength h → HarmlessHeader buffer bufferLength h

section

variable {buffer : List Byte} {bufferLength : ℤ}

/-- A header is harmless when the package it decodes to is. -/
theorem harmlessHeader_iff (h : Header) (p : IoTPackage) :
    HarmlessHeader buffer bufferLength h ↔ ∃ q, Decodes h p q ∧ LengthsFit q ∧
      (packageTotalLen q ≤ bufferLength →
        DataInside buffer q ∧ (ChecksumHolds buffer q → 0 < packageTotalLen q)) := by
  have hdecodes := exists_decodes_iff h p (fun headerLength dataLength =>
    -2147483648 ≤ headerLength + dataLength ∧ headerLength + dataLength + 2 ≤ 2147483647 ∧
      (headerLength + dataLength + 2 ≤ bufferLength →
        0 ≤ headerLength ∧ headerLength.toNat + dataLength.toNat + 2 ≤ buffer.length ∧
        (ChecksumAt buffer (headerLength.toNat + dataLength.toNat) →
          0 < headerLength + dataLength + 2)))
  constructor
  · intro hh
    obtain ⟨q, hq, hlower, hupper, hdata⟩ := hdecodes.mpr
      ⟨⟨hh.version, hh.headLen, hh.dataLen, hh.source, hh.destination⟩, hh.lengths⟩
    refine ⟨q, hq, ⟨hlower, hupper⟩, ?_⟩
    intro henough
    obtain ⟨hstart, hstop, hpos⟩ := hdata henough
    exact ⟨⟨hstart, hstop⟩, hpos⟩
  · intro hq
    obtain ⟨q, hq, hfit, hdata⟩ := hq
    obtain ⟨hfields, hlengths⟩ := hdecodes.mp ⟨q, hq, hfit.sum_lower, hfit.total_upper, by
      intro henough
      obtain ⟨hin, hpos⟩ := hdata henough
      exact ⟨hin.start, hin.stop, hpos⟩⟩
    exact ⟨hfields.version, hfields.source, hfields.destination, hfields.headLen,
      hfields.dataLen, hlengths⟩

/-- A call makes progress exactly when the header at the front is harmless. -/
theorem progress_iff_harmless (h0 : 0 ≤ bufferLength) (hcap : bufferLength ≤ buffer.length)
    (hint : bufferLength ≤ 2147483647) :
    Progress buffer bufferLength ↔ Harmless buffer bufferLength := by
  have hok := exists_ok_iff h0 hcap hint generateIotPackage
  constructor
  · intro hprogress h hwhole
    obtain ⟨r, hread, hless⟩ := hprogress
    obtain ⟨q, hq, hfit, hdata⟩ := hok.mp ⟨r, hread⟩ h hwhole
    apply (harmlessHeader_iff h generateIotPackage).mpr
    refine ⟨q, hq, hfit, ?_⟩
    intro henough
    obtain ⟨hin, hpos⟩ := hdata henough
    refine ⟨hin, ?_⟩
    intro hsum
    -- the call completes this package, so its length is what progress says it is
    have hcompleted := (Outcome.completed h q hwhole hq hfit henough hin hsum (hpos hsum)).eq_ok
      h0 hcap hint
    rw [hcompleted] at hread
    obtain rfl := Except.ok.inj hread
    have hshorter := (hless rfl).2
    simp only at hshorter
    omega
  · intro hharmless
    have hall : ∃ r, getCompletedPackage buffer bufferLength generateIotPackage = .ok r := by
      apply hok.mpr
      intro h hwhole
      obtain ⟨q, hq, hfit, hdata⟩ :=
        (harmlessHeader_iff h generateIotPackage).mp (hharmless h hwhole)
      exact ⟨q, hq, hfit, fun henough =>
        ⟨(hdata henough).1, fun hsum => ((hdata henough).2 hsum).le⟩⟩
    obtain ⟨r, hread⟩ := hall
    refine ⟨r, hread, ?_⟩
    intro hresult
    cases outcome_of_ok h0 hcap hread with
    | short _ => cases hresult
    | invalid _ _ => cases hresult
    | headerUnfinished _ _ _ => cases hresult
    | dataUnfinished h q _ _ _ _ => cases hresult
    | corrupt h q _ _ _ _ _ _ => cases hresult
    | completed h q hwhole hq hfit henough hin hsum _ =>
      obtain ⟨q', hq', -, hdata⟩ :=
        (harmlessHeader_iff h generateIotPackage).mp (hharmless h hwhole)
      obtain rfl := hq.unique hq'
      have hpos := (hdata henough).2 hsum
      simp only
      omega

end

/-- A package buffer with its array whole and its count inside the array. -/
structure InRange (b : PackageBuffer) : Prop where
  size : b.tempBuffer.length = MAXRECV
  lower : 0 ≤ b.receiveCount
  upper : b.receiveCount ≤ MAXRECV

/-- The buffers on which the loop calls the reader, from the first one on. -/
inductive Calls (b : PackageBuffer) : PackageBuffer → Prop
  | first : Calls b b
  | next {b' : PackageBuffer} {r : Reading} : Calls b b' →
      getCompletedPackage b'.tempBuffer b'.receiveCount generateIotPackage = .ok r →
      r.result = .completed → Calls b ⟨r.buffer, r.bufferLength⟩

theorem Calls.from_next {b b' : PackageBuffer} {r : Reading}
    (hread : getCompletedPackage b.tempBuffer b.receiveCount generateIotPackage = .ok r)
    (hresult : r.result = .completed) (h : Calls ⟨r.buffer, r.bufferLength⟩ b') : Calls b b' := by
  induction h with
  | first => exact .next .first hread hresult
  | next _ hread' hresult' ih => exact .next ih hread' hresult'

theorem outcome_inRange {b : PackageBuffer} (hb : InRange b) {r : Reading}
    (hread : getCompletedPackage b.tempBuffer b.receiveCount generateIotPackage = .ok r) :
    InRange ⟨r.buffer, r.bufferLength⟩ := by
  have hsize := hb.size
  have hlower := hb.lower
  have hupper := hb.upper
  have hcleared : (cleared b.tempBuffer b.receiveCount).length = MAXRECV := by
    simp only [cleared, List.length_append, List.length_replicate, List.length_drop]
    omega
  cases outcome_of_ok hlower (by omega) hread with
  | short => exact hb
  | invalid => exact ⟨hcleared, le_rfl, by simp⟩
  | headerUnfinished => exact hb
  | dataUnfinished => exact hb
  | corrupt => exact ⟨hcleared, le_rfl, by simp⟩
  | completed h q _ _ _ henough _ _ hpos =>
    refine ⟨?_, by simp only; omega, by simp only; omega⟩
    simp only [shifted, List.length_append, List.length_replicate, List.length_drop,
      List.length_take]
    omega

theorem drainLoop_inRange {i : ℤ} {fuel : ℕ} {b : PackageBuffer} (hb : InRange b)
    {r : PackageBuffer × List IoTPackage} (h : drainLoop i fuel b = .ok r) : InRange r.1 := by
  induction fuel generalizing b r with
  | zero => cases h
  | succ fuel ih =>
    obtain ⟨reading, hread, h⟩ := bind_eq_ok.mp h
    have hnext := outcome_inRange hb hread
    dsimp only at h
    split at h
    · obtain ⟨⟨b', calls⟩, hrest, h⟩ := bind_eq_ok.mp h
      have hb' : InRange b' := ih hnext hrest
      obtain rfl := Except.ok.inj h
      exact hb'
    · obtain rfl := Except.ok.inj h
      exact hnext

/-- With one round for each held byte and one more, the loop ends on harmless headers. -/
theorem drainLoop_ends (i : ℤ) {b : PackageBuffer} (hb : InRange b) {fuel : ℕ}
    (hfuel : b.receiveCount.toNat < fuel)
    (hcalls : ∀ b', Calls b b' → Harmless b'.tempBuffer b'.receiveCount) :
    ∃ b' calls, drainLoop i fuel b = .ok (b', calls) ∧ InRange b' := by
  induction fuel generalizing b with
  | zero => omega
  | succ fuel ih =>
    have hsize := hb.size
    have hlower := hb.lower
    have hupper := hb.upper
    have hmax : MAXRECV = 2000 := rfl
    obtain ⟨r, hread, hless⟩ := (progress_iff_harmless hlower (by omega) (by omega)).mpr
      (hcalls b .first)
    have hnext := outcome_inRange hb hread
    by_cases hresult : r.result = .completed
    · have hshorter := hless hresult
      obtain ⟨b', calls, hloop, hb'⟩ := ih hnext (by simp only; omega)
        (fun b' hb' => hcalls b' (hb'.from_next hread hresult))
      refine ⟨b', { r.packageInfo with belongSocketIdx := i } :: calls, ?_, hb'⟩
      simp only [drainLoop, hread, ok_bind, hresult, ↓reduceIte, hloop]
    · refine ⟨_, [], ?_, hnext⟩
      simp only [drainLoop, hread, ok_bind, hresult, ↓reduceIte]

theorem storeReceived_inRange {b : PackageBuffer} (hb : InRange b) (received : List Byte) :
    ∃ b', storeReceived b received = .ok b' ∧ InRange b' := by
  have hsize := hb.size
  have hlower := hb.lower
  by_cases hover : b.receiveCount + received.length > MAXRECV
  · refine ⟨⟨cleared b.tempBuffer MAXRECV, 0⟩, ?_, ?_, le_rfl, by simp⟩
    · rw [storeReceived, if_pos hover, memset_eq _ _ (by simp) (by omega), ok_bind]
    · simp only [cleared, Int.toNat_natCast, List.length_append, List.length_replicate,
        List.length_drop]
      omega
  · obtain ⟨n, hn⟩ := Int.eq_ofNat_of_zero_le hlower
    have hcopy := copyLoop_eq (recvBuffer received) received.length 0 n b.tempBuffer
      (by simp only [recvBuffer, List.length_append]; omega) (by omega)
    rw [Int.natCast_zero, List.drop_zero, recvBuffer, List.take_left] at hcopy
    refine ⟨⟨splice b.tempBuffer n received, b.receiveCount + received.length⟩, ?_, ?_, ?_, ?_⟩
    · rw [storeReceived, if_neg hover, charcat, hn, Int.toNat_natCast, recvBuffer, hcopy, ok_bind]
    · rw [splice_length _ _ _ (by omega)]
      exact hsize
    · simp only
      omega
    · simp only
      omega

/-- Connections come and go and any bytes arrive, in pieces of any size. -/
def Step (s : ServerState) (e : Event) (t : ServerState) : Prop :=
  ∃ fuel calls, mainServerLoop fuel s e = .ok (t, calls)

/-- Every call of the reader that an event leads to is on a harmless header. -/
def HarmlessEvent (s : ServerState) : Event → Prop
  | .accept _ => True
  | .readable i received => ∀ b stored b', s.packageBuffer i = some b →
      storeReceived b received = .ok stored → Calls stored b' →
      Harmless b'.tempBuffer b'.receiveCount

def AllInRange (s : ServerState) : Prop := ∀ i b, s.packageBuffer i = some b → InRange b

theorem readClient_inRange {s t : ServerState} (hs : AllInRange s) {fuel : ℕ} {i : Slot}
    {received : List Byte} {calls : List IoTPackage}
    (hstep : readClient fuel s i received = .ok (t, calls)) : AllInRange t := by
  unfold readClient at hstep
  split at hstep
  · obtain ⟨rfl, -⟩ := Prod.mk.inj (Except.ok.inj hstep)
    intro j b hj
    by_cases hji : j = i
    · subst hji
      simp [closeClient] at hj
    · simp only [closeClient, Function.update_of_ne hji] at hj
      exact hs j b hj
  · split at hstep
    · simp at hstep
    · rename_i b hb
      obtain ⟨stored, hstore, hinRange⟩ := storeReceived_inRange (hs i b hb) received
      rw [hstore, ok_bind] at hstep
      obtain ⟨⟨b', calls'⟩, hloop, hstep⟩ := bind_eq_ok.mp hstep
      obtain ⟨rfl, -⟩ := Prod.mk.inj (Except.ok.inj hstep)
      intro j b'' hj
      by_cases hji : j = i
      · subst hji
        simp only [Function.update_self, Option.some.injEq] at hj
        exact hj ▸ drainLoop_inRange hinRange hloop
      · simp only [Function.update_of_ne hji] at hj
        exact hs j b'' hj

theorem step_inRange {s t : ServerState} {e : Event} (hs : AllInRange s) (hstep : Step s e t) :
    AllInRange t := by
  obtain ⟨fuel, calls, hloop⟩ := hstep
  cases e with
  | accept newSocket =>
    obtain ⟨rfl, -⟩ := Prod.mk.inj (Except.ok.inj hloop)
    intro i b hi
    unfold acceptClient at hi
    split at hi
    · exact hs i b hi
    · rename_i j hfree
      by_cases hij : i = j
      · subst hij
        simp only [Function.update_self, Option.some.injEq] at hi
        subst hi
        exact ⟨List.length_replicate .., le_rfl, by simp [generatePackageBuffer]⟩
      · simp only [Function.update_of_ne hij] at hi
        exact hs i b hi
  | readable i received =>
    by_cases hsocket : s.clientSocket i = 0
    · rw [mainServerLoop, if_pos hsocket] at hloop
      obtain ⟨rfl, -⟩ := Prod.mk.inj (Except.ok.inj hloop)
      exact hs
    · rw [mainServerLoop, if_neg hsocket] at hloop
      exact readClient_inRange hs hloop

/-- A call on the buffer of a client makes progress exactly when the header at its front
is harmless. In every run every receive count is inside its buffer, and where the next event
leads to harmless headers only, the loop over a buffer of `L` bytes ends within `L + 1`
rounds. -/
theorem drain_progress (buffer : List Byte) (bufferLength : ℤ) (hsize : buffer.length = MAXRECV)
    (h0 : 0 ≤ bufferLength) (hmax : bufferLength ≤ MAXRECV) {es : List Event} {s : ServerState}
    (hrun : Run Step initServerInfo es s) :
    (Progress buffer bufferLength ↔ Harmless buffer bufferLength) ∧
    (∀ i b, s.packageBuffer i = some b → 0 ≤ b.receiveCount ∧ b.receiveCount ≤ MAXRECV) ∧
    (∀ (i : Slot) (b : PackageBuffer) (received : List Byte), s.packageBuffer i = some b →
      HarmlessEvent s (.readable i received) →
      ∃ stored r, storeReceived b received = .ok stored ∧
        drainLoop (i.val : ℤ) (stored.receiveCount.toNat + 1) stored = .ok r) := by
  have h2000 : MAXRECV = 2000 := rfl
  have hinv : AllInRange s := hrun.invariant AllInRange (fun _ _ _ hs => step_inRange hs)
    (by simp [AllInRange, initServerInfo])
  refine ⟨progress_iff_harmless h0 (by omega) (by omega),
    fun i b hb => ⟨(hinv i b hb).lower, (hinv i b hb).upper⟩, ?_⟩
  intro i b received hb hharmless
  rcases storeReceived_inRange (hinv i b hb) received with ⟨stored, hstore, hinRange⟩
  rcases drainLoop_ends (i.val : ℤ) hinRange (Nat.lt_succ_self _)
    (fun b' => hharmless b stored b' hb hstore) with ⟨b', calls, hloop, -⟩
  exact ⟨stored, _, hstore, hloop⟩

/-- A header of 19 bytes that announces 19 header bytes and -21 data bytes. -/
def stallingHeader : List Byte :=
  CurrentVersion ++ [0] ++ ascii "19" ++ [0] ++ ascii "-21" ++ [0] ++ ascii "A" ++ [0] ++
    ascii "B" ++ [0]

def stallingBuffer : List Byte :=
  stallingHeader ++ checksumBytes stallingHeader ++ List.replicate (MAXRECV - 21) 0

/-- A loop whose reader takes nothing away never ends. -/
theorem drainLoop_stalls (i : ℤ) {b : PackageBuffer} {q : IoTPackage}
    (hread : getCompletedPackage b.tempBuffer b.receiveCount generateIotPackage =
      .ok ⟨.completed, b.tempBuffer, b.receiveCount, q⟩) (fuel : ℕ) :
    drainLoop i fuel b = .error .unfinished := by
  induction fuel with
  | zero => rfl
  | succ fuel ih => simp only [drainLoop, hread, ok_bind, ↓reduceIte, ih, error_bind]

theorem stallingBuffer_completed :
    ∃ q, getCompletedPackage stallingBuffer 21 generateIotPackage =
      .ok ⟨.completed, stallingBuffer, 21, q⟩ := by
  refine ⟨{ generateIotPackage with
    ver := ⟨CurrentVersion ++ [0, 0, 0], by decide⟩
    verLength := 7
    headerLength := 19
    dataLength := -21
    sorIp := ⟨⟨ascii "A" ++ List.replicate 14 0, by decide⟩, 1⟩
    desIp := ⟨⟨ascii "B" ++ List.replicate 14 0, by decide⟩, 1⟩ }, ?_⟩
  decide +kernel

/-- A completed package need not shorten the buffer, and then the loop runs for ever. -/
theorem drain_stalls :
    ¬ ((∀ (buffer : List Byte) (bufferLength : ℤ), buffer.length = MAXRECV → 0 ≤ bufferLength →
        bufferLength ≤ MAXRECV → ∀ r,
        getCompletedPackage buffer bufferLength generateIotPackage = .ok r →
        r.result = .completed → 0 ≤ r.bufferLength ∧ r.bufferLength < bufferLength)) ∧
      ∀ fuel, drainLoop 0 fuel ⟨stallingBuffer, 21⟩ = .error .unfinished := by
  obtain ⟨q, hread⟩ := stallingBuffer_completed
  refine ⟨?_, drainLoop_stalls 0 hread⟩
  intro hall
  have hless := (hall stallingBuffer 21 (by decide +kernel) (by omega) (by decide) _ hread rfl).2
  exact absurd hless (lt_irrefl _)

/-- A package of one byte between two addresses, as the buffer of a client holds it. -/
def packageAB : List Byte := wireBytes (CreatedPackage.packageInfoAB 17 [120])

def bufferAB : List Byte := packageAB ++ List.replicate (MAXRECV - 20) 0

theorem packageAB_length : packageAB.length = 20 := by decide

theorem bufferAB_length : bufferAB.length = MAXRECV := by
  rw [bufferAB, List.length_append, packageAB_length, List.length_replicate]
  rfl

/-- A client whose first 12 bytes of the package are received. -/
def halfReceived : PackageBuffer := ⟨packageAB.take 12 ++ List.replicate (MAXRECV - 12) 0, 12⟩

/-- What the reader makes of the whole package and of the buffer it leaves. -/
theorem reads_bufferAB :
    getCompletedPackage bufferAB 20 generateIotPackage =
      .ok ⟨.completed, List.replicate MAXRECV 0, 0, CreatedPackage.packageInfoAB 17 [120]⟩ ∧
    getCompletedPackage generatePackageBuffer.tempBuffer generatePackageBuffer.receiveCount
      generateIotPackage =
      .ok ⟨.noerror, generatePackageBuffer.tempBuffer, 0, generateIotPackage⟩ := by
  constructor
  · decide +kernel
  · decide +kernel

/-- What the loop stores and does on the two pieces. -/
theorem drains_pieces :
    (storeReceived generatePackageBuffer (packageAB.take 12) = .ok halfReceived ∧
      drainLoop ((0 : Slot).val : ℤ) 13 halfReceived = .ok (halfReceived, [])) ∧
    storeReceived halfReceived (packageAB.drop 12) = .ok ⟨bufferAB, 20⟩ ∧
      drainLoop ((0 : Slot).val : ℤ) 21 ⟨bufferAB, 20⟩ = .ok (generatePackageBuffer,
        [{ CreatedPackage.packageInfoAB 17 [120] with belongSocketIdx := 0 }]) := by
  refine ⟨⟨?_, ?_⟩, ?_, ?_⟩
  · decide +kernel
  · decide +kernel
  · decide +kernel
  · decide +kernel

theorem step_half : Step (acceptClient initServerInfo 4) (.readable 0 (packageAB.take 12))
    { acceptClient initServerInfo 4 with
      packageBuffer := Function.update (acceptClient initServerInfo 4).packageBuffer 0
        (some halfReceived) } := by
  have hopen : (acceptClient initServerInfo 4).packageBuffer 0 = some generatePackageBuffer := rfl
  have hsome : packageAB.take 12 ≠ [] := by
    rw [Ne, ← List.length_eq_zero_iff, List.length_take, packageAB_length]
    decide
  refine ⟨13, [], ?_⟩
  rw [mainServerLoop, if_neg (by decide), readClient, if_neg hsome, hopen]
  simp only [drains_pieces.1.1, ok_bind, drains_pieces.1.2]

theorem harmless_generatePackageBuffer :
    Harmless generatePackageBuffer.tempBuffer generatePackageBuffer.receiveCount := by
  apply (progress_iff_harmless (by decide) (Int.natCast_nonneg _) (by decide)).mp
  refine ⟨_, reads_bufferAB.2, ?_⟩
  intro hresult
  cases hresult

/-- The reader is called on the whole package and on the buffer it leaves. -/
theorem calls_bufferAB {b : PackageBuffer} (h : Calls ⟨bufferAB, 20⟩ b) :
    b = ⟨bufferAB, 20⟩ ∨ b = generatePackageBuffer := by
  induction h with
  | first => exact .inl rfl
  | next _ hread hresult ih =>
    rcases ih with rfl | rfl
    · rw [reads_bufferAB.1] at hread
      obtain rfl := Except.ok.inj hread
      exact .inr rfl
    · rw [reads_bufferAB.2] at hread
      obtain rfl := Except.ok.inj hread
      cases hresult

theorem progress_bufferAB : Progress bufferAB 20 :=
  ⟨_, reads_bufferAB.1, fun _ => ⟨le_rfl, by decide⟩⟩

/-- A package arrives in two pieces. The call on it makes progress; the manager has counted the
first piece, and on the second the loop passes the package on and ends. -/
theorem drain_progress_package :
    Progress bufferAB 20 ∧ Harmless bufferAB 20 ∧
    ∃ es s b, Run Step initServerInfo es s ∧ es.length = 2 ∧
      s.packageBuffer 0 = some b ∧ b.receiveCount = 12 ∧ b.receiveCount ≤ MAXRECV ∧
      ∃ stored r, storeReceived b (packageAB.drop 12) = .ok stored ∧ stored.receiveCount = 20 ∧
        drainLoop ((0 : Slot).val : ℤ) (stored.receiveCount.toNat + 1) stored = .ok r ∧
        r.2 = [{ CreatedPackage.packageInfoAB 17 [120] with belongSocketIdx := 0 }] := by
  have haccept : Step initServerInfo (.accept 4) (acceptClient initServerInfo 4) := ⟨0, [], rfl⟩
  have hrun := (Run.single haccept).snoc step_half
  have hcount : (Function.update (acceptClient initServerInfo 4).packageBuffer 0
      (some halfReceived)) 0 = some halfReceived := Function.update_self ..
  have hresult := drain_progress bufferAB 20 bufferAB_length (by decide) (by decide) hrun
  have hharmless : Harmless bufferAB 20 := hresult.1.mp progress_bufferAB
  have hcalls : HarmlessEvent { acceptClient initServerInfo 4 with
      packageBuffer := Function.update (acceptClient initServerInfo 4).packageBuffer 0
        (some halfReceived) } (.readable 0 (packageAB.drop 12)) := by
    intro b stored b' hb hstored hb'
    obtain rfl := Option.some.inj (hcount.symm.trans hb)
    obtain rfl := Except.ok.inj (drains_pieces.2.1.symm.trans hstored)
    rcases calls_bufferAB hb' with rfl | rfl
    · exact hharmless
    · exact harmless_generatePackageBuffer
  obtain ⟨stored, r, hstored, hloop⟩ := hresult.2.2 0 _ (packageAB.drop 12) hcount hcalls
  obtain rfl := Except.ok.inj (drains_pieces.2.1.symm.trans hstored)
  obtain rfl := Except.ok.inj (drains_pieces.2.2.symm.trans hloop)
  exact ⟨progress_bufferAB, hharmless, _, _, _, hrun, rfl, hcount, rfl,
    (hresult.2.1 0 _ hcount).2, _, _, hstored, rfl, hloop, rfl⟩

end IoTRepublic.DrainProgress
