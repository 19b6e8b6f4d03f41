import IoTRepublic.Foundation.Framing
import IoTRepublic.Foundation.Runs
import IoTRepublic.Manager

/-!
Stream reassembly in the manager. Every connection sends a list of packages,
its bytes arrive in pieces of any size, and connections come, go and reuse the
slots of the client table in any order. What the main loop hands on for a
connection is exactly the packages that have arrived whole, and the buffer of
its slot holds the unfinished tail.
-/
namespace IoTRepublic.Reassembly

open CheckedArray Package PackageReader ReaderOutcome CreatedPackage Manager Framing Runs

/-- A package as a client sends it: made by `create_package`, written by `encode_package`. -/
structure SentPackage where
  sorIp : List Byte
  desIp : List Byte
  data : List Byte
  package : IoTPackage
  bytes : List Byte
  sor : IsAddress sorIp
  des : IsAddress desIp
  created : createPackage generateIotPackage sorIp desIp data data.length = .ok package
  encoded : ∃ s, encodePackage (List.replicate MAXRECV 0) package = .ok s ∧ bytes = s.1.take s.2

namespace SentPackage

theorem isCreated (m : SentPackage) :
    Created generateIotPackage m.sorIp m.desIp m.data m.package :=
  createPackage_eq_ok.mp m.created

theorem bytes_eq (m : SentPackage) :
    m.bytes = wireBytes m.package ∧ m.bytes.length ≤ MAXRECV := by
  obtain ⟨s, hs, hbytes⟩ := m.encoded
  obtain ⟨-, hfits, rfl⟩ := (m.isCreated.encodePackage_eq_ok m.sor m.des).mp hs
  rw [List.length_replicate] at hfits
  have htake : m.bytes = wireBytes m.package := by
    rw [hbytes, written, splice_zero, List.take_left]
  exact ⟨htake, htake ▸ hfits⟩

theorem bytes_pos (m : SentPackage) : 0 < m.bytes.length := by
  rw [m.bytes_eq.1, m.isCreated.wireBytes_length m.sor m.des]
  omega

/-- It is written into every array that has room for its bytes. -/
theorem exists_encode (m : SentPackage) (buffer : List Byte)
    (hroom : m.bytes.length ≤ buffer.length) :
    ∃ s, encodePackage buffer m.package = .ok s ∧ s.1.take s.2 = m.bytes := by
  obtain ⟨s, hs, -⟩ := m.encoded
  obtain ⟨hdata, -, -⟩ := (m.isCreated.encodePackage_eq_ok m.sor m.des).mp hs
  rw [m.bytes_eq.1] at hroom ⊢
  exact ⟨_, (m.isCreated.encodePackage_eq_ok m.sor m.des).mpr ⟨hdata, hroom, rfl⟩,
    written_take _ _⟩

/-- The package as it is handed on for slot `i`. -/
def handedOn (i : Slot) (m : SentPackage) : IoTPackage :=
  { m.package with belongSocketIdx := (i.val : ℤ) }

/-- Any two addresses and any data that leave room for the header make such a package. -/
theorem exists_of (sorIp desIp data : List Byte) (hsor : IsAddress sorIp) (hdes : IsAddress desIp)
    (hdata : data.length ≤ 1800) :
    ∃ m : SentPackage, m.sorIp = sorIp ∧ m.desIp = desIp ∧ m.data = data := by
  obtain ⟨q, hcreated⟩ := exists_created generateIotPackage hsor hdes
    (lt_of_le_of_lt hdata (by decide))
  have hmax : MAXRECV = 2000 := rfl
  have hlength := hcreated.wireBytes_length hsor hdes
  have hheader := hcreated.header_length_le hsor hdes
  exact ⟨⟨sorIp, desIp, data, q, _, hsor, hdes, createPackage_eq_ok.mpr hcreated,
    ⟨_, (hcreated.encodePackage_eq_ok hsor hdes).mpr
      ⟨by omega, by rw [List.length_replicate, hlength]; omega, rfl⟩, rfl⟩⟩, rfl, rfl, rfl⟩

end SentPackage

/-- The buffer of a slot holds exactly these bytes. -/
structure Holds (b : PackageBuffer) (held : List Byte) : Prop where
  size : b.tempBuffer.length = MAXRECV
  count : b.receiveCount = held.length
  front : held <+: b.tempBuffer

def Takes (held : List Byte) (m : SentPackage) (rest : List Byte) : Prop :=
  rest.length < held.length ∧ ∀ b, Holds b held →
    ∃ b', getCompletedPackage b.tempBuffer b.receiveCount generateIotPackage =
      .ok ⟨.completed, b'.tempBuffer, b'.receiveCount, m.package⟩ ∧ Holds b' rest

def Waits (held : List Byte) : Prop :=
  ∀ b, Holds b held →
    ∃ q, getCompletedPackage b.tempBuffer b.receiveCount generateIotPackage =
      .ok ⟨.noerror, b.tempBuffer, b.receiveCount, q⟩

theorem Holds.length_le {b : PackageBuffer} {held : List Byte} (h : Holds b held) :
    held.length ≤ MAXRECV := by
  rw [← h.size]
  exact h.front.length_le

theorem holds_generated : Holds generatePackageBuffer [] :=
  ⟨List.length_replicate .., rfl, List.nil_prefix⟩

theorem shifted_append (front rest behind : List Byte) :
    shifted (front ++ (rest ++ behind)) ((front ++ rest).length : ℕ) (front.length : ℕ) =
      rest ++ (List.replicate front.length 0 ++ behind) := by
  simp only [shifted, Int.toNat_natCast, ← List.append_assoc, List.take_left, List.drop_left]

/-- From an empty buffer no package is read, whatever package the reader is given to fill. -/
theorem Holds.reads_nothing {b : PackageBuffer} (hb : Holds b []) (info : IoTPackage) :
    ∃ q, getCompletedPackage b.tempBuffer b.receiveCount info =
      .ok ⟨.noerror, b.tempBuffer, b.receiveCount, q⟩ := by
  have hout : Outcome b.tempBuffer b.receiveCount info
      ⟨.noerror, b.tempBuffer, b.receiveCount, info⟩ :=
    .short (by rw [hb.count]; decide)
  refine ⟨_, hout.eq_ok ?_ ?_ ?_⟩ <;> simp [hb.count]

theorem Holds.reads_package {b : PackageBuffer} (m : SentPackage) {rest : List Byte}
    (hb : Holds b (m.bytes ++ rest)) (info : IoTPackage) :
    ∃ b', getCompletedPackage b.tempBuffer b.receiveCount info =
      .ok ⟨.completed, b'.tempBuffer, b'.receiveCount,
        { m.package with belongSocketIdx := info.belongSocketIdx }⟩ ∧ Holds b' rest := by
  obtain ⟨behind, hbehind⟩ := hb.front
  have hsize := hb.length_le
  have hmax : MAXRECV = 2000 := rfl
  have hlen := hb.size
  have hcount := hb.count
  rw [← hbehind] at hlen
  refine ⟨⟨rest ++ (List.replicate m.bytes.length 0 ++ behind), rest.length⟩, ?_, ?_⟩
  · have hread := m.isCreated.completed m.sor m.des info (rest ++ behind) b.receiveCount
    rw [← m.bytes_eq.1] at hread
    rw [hcount] at hread ⊢
    rw [← hbehind, List.append_assoc, hread, shifted_append]
    · simp only [List.length_append]
      congr 2
      omega
    · simp only [List.length_append]
      omega
    · simp only [List.length_append]
      omega
    · simp only [List.length_append] at hsize ⊢
      omega
  · refine ⟨?_, rfl, List.prefix_append ..⟩
    simp only [List.length_append, List.length_replicate] at hlen ⊢
    omega

theorem Holds.reads_part {b : PackageBuffer} {held : List Byte} (hb : Holds b held)
    {m : SentPackage} (hpart : held <+: m.bytes) (hlt : held.length < m.bytes.length)
    (info : IoTPackage) :
    ∃ q, getCompletedPackage b.tempBuffer b.receiveCount info =
      .ok ⟨.noerror, b.tempBuffer, b.receiveCount, q⟩ := by
  obtain ⟨behind, hbehind⟩ := hb.front
  have htake : b.tempBuffer.take held.length = held := by
    rw [← hbehind, List.take_left]
  rw [hb.count]
  refine m.isCreated.unfinished m.sor m.des info ?_ ?_ ?_
  · rw [htake, ← m.bytes_eq.1]
    exact hpart
  · rw [← m.bytes_eq.1]
    exact hlt
  · rw [hb.size]
    exact hb.length_le

/-- The reader of the manager is a reader of the sent packages. -/
theorem isReader : IsReader SentPackage.bytes Takes Waits where
  empty := fun b hb => hb.reads_nothing generateIotPackage
  complete := by
    intro m rest
    have hpos := m.bytes_pos
    refine ⟨by simp only [List.length_append]; omega, ?_⟩
    intro b hb
    have hpackage : { m.package with
        belongSocketIdx := generateIotPackage.belongSocketIdx } = m.package := by
      rw [← m.isCreated.belongSocketIdx]
    have hread := hb.reads_package m generateIotPackage
    rw [hpackage] at hread
    exact hread
  unfinished := fun _ _ hpart hlt _ hb => hb.reads_part hpart hlt generateIotPackage

/-- A buffer that holds the bytes of a package. -/
theorem holds_bytes (m : SentPackage) :
    Holds ⟨m.bytes ++ List.replicate (MAXRECV - m.bytes.length) 0, m.bytes.length⟩ m.bytes where
  size := by
    have := m.bytes_eq.2
    rw [List.length_append, List.length_replicate]
    omega
  count := rfl
  front := List.prefix_append ..

theorem takes_bytes (m : SentPackage) : Takes m.bytes m [] := by
  have htakes := isReader.complete m []
  rwa [List.append_nil] at htakes

/-- No package begins with the bytes of another one. -/
theorem eq_of_prefix {m m' : SentPackage} (h : m.bytes <+: m'.bytes) : m = m' := by
  obtain ⟨b, hread, -⟩ := (takes_bytes m).2 _ (holds_bytes m)
  have hlength : m.bytes.length = m'.bytes.length := by
    by_contra hne
    obtain ⟨q, hpart⟩ := isReader.unfinished m' m.bytes h (lt_of_le_of_ne h.length_le hne) _
      (holds_bytes m)
    rw [hread] at hpart
    cases hpart
  have hbytes := h.eq_of_length hlength
  obtain ⟨b', hread', -⟩ := (takes_bytes m').2 _ (holds_bytes m')
  rw [← hbytes, hread] at hread'
  have hpackage : m.package = m'.package := congrArg Reading.packageInfo (Except.ok.inj hread')
  obtain ⟨hsource, hdestination⟩ := m.isCreated.texts m.sor m.des
  obtain ⟨hsource', hdestination'⟩ := m'.isCreated.texts m'.sor m'.des
  have hdata := m.isCreated.data
  rw [hpackage] at hsource hdestination hdata
  have hsor : m.sorIp = m'.sorIp := Except.ok.inj (hsource.symm.trans hsource')
  have hdes : m.desIp = m'.desIp := Except.ok.inj (hdestination.symm.trans hdestination')
  have hsame : m.data = m'.data := hdata.symm.trans m'.isCreated.data
  cases m
  cases m'
  simp only [SentPackage.mk.injEq]
  exact ⟨hsor, hdes, hsame, hpackage, hbytes⟩

/-- Bytes copied behind the held ones are held too. -/
theorem charcat_holds {b : PackageBuffer} {held : List Byte} (hb : Holds b held)
    (target : List Byte) {n : ℕ} (hn : n ≤ target.length) (hroom : held.length + n ≤ MAXRECV) :
    ∃ buffer, charcat b.tempBuffer target b.receiveCount n = .ok buffer ∧
      Holds ⟨buffer, b.receiveCount + n⟩ (held ++ target.take n) := by
  obtain ⟨behind, hbehind⟩ := hb.front
  have hsize := hb.size
  have hcopy := copyLoop_eq target n 0 held.length b.tempBuffer (by omega) (by omega)
  rw [Int.natCast_zero, List.drop_zero] at hcopy
  refine ⟨splice b.tempBuffer held.length (target.take n), ?_, ?_, ?_, ?_⟩
  · rw [charcat, hb.count, Int.toNat_natCast, hcopy]
  · rw [splice_length _ _ _ (by rw [List.length_take]; omega)]
    exact hsize
  · rw [List.length_append, List.length_take, min_eq_left hn, hb.count]
    push_cast
    rfl
  · rw [splice, ← hbehind, List.take_left]
    exact List.prefix_append ..

theorem storeReceived_holds {b : PackageBuffer} {held : List Byte} (hb : Holds b held)
    (received : List Byte) (hroom : held.length + received.length ≤ MAXRECV) :
    ∃ b', storeReceived b received = .ok b' ∧ Holds b' (held ++ received) := by
  obtain ⟨buffer, hcopy, hholds⟩ := charcat_holds hb (recvBuffer received)
    (by simp only [recvBuffer, List.length_append]; omega) hroom
  rw [recvBuffer, List.take_left] at hholds
  refine ⟨_, ?_, hholds⟩
  rw [storeReceived, if_neg (by rw [hb.count]; omega), hcopy, ok_bind]

/-- The loop of the manager hands on what the reader drains. -/
theorem drainLoop_of_drains {held left : List Byte} {ms : List SentPackage}
    (hdrains : Drains Takes Waits held ms left) (i : Slot) {b : PackageBuffer} (hb : Holds b held)
    {fuel : ℕ} (hfuel : ms.length < fuel) :
    ∃ b', drainLoop (i.val : ℤ) fuel b = .ok (b', ms.map (SentPackage.handedOn i)) ∧
      Holds b' left := by
  induction hdrains generalizing b fuel with
  | stop hwaits =>
    obtain ⟨fuel, rfl⟩ : ∃ k, fuel = k + 1 := ⟨fuel - 1, by omega⟩
    obtain ⟨q, hread⟩ := hwaits b hb
    refine ⟨b, ?_, hb⟩
    simp only [drainLoop, hread, ok_bind, reduceCtorEq, ↓reduceIte, List.map_nil]
  | take htakes _ ih =>
    obtain ⟨fuel, rfl⟩ : ∃ k, fuel = k + 1 := ⟨fuel - 1, by omega⟩
    obtain ⟨b', hread, hb'⟩ := htakes.2 b hb
    rw [List.length_cons] at hfuel
    obtain ⟨b'', hrest, hb''⟩ := ih hb' (Nat.lt_of_succ_lt_succ hfuel)
    refine ⟨b'', ?_, hb''⟩
    simp only [drainLoop, hread, ok_bind, ↓reduceIte, hrest, List.map_cons]
    rfl

/-- The manager and what is known of the connections it serves: the connection in each
slot, the slot each connection got, the bytes received from it and the packages handed on. -/
structure Session where
  server : ServerState
  owner : Slot → Option ℕ
  accepted : ℕ
  slotOf : ℕ → Option Slot
  received : ℕ → List Byte
  calls : List (ℕ × IoTPackage)

namespace Session

def init : Session where
  server := initServerInfo
  owner := fun _ => none
  accepted := 0
  slotOf := fun _ => none
  received := fun _ => []
  calls := []

def callsOf (s : Session) (c : ℕ) : List IoTPackage :=
  (s.calls.filter (fun call => call.1 = c)).map Prod.snd

/-- The books after an event that left the manager in `server` and handed on `calls`. -/
def record (s : Session) (server : ServerState) (calls : List IoTPackage) : Event → Session
  | .accept _ =>
    match freeSlot s.server.clientSocket with
    | none => { s with server := server, accepted := s.accepted + 1 }
    | some i =>
      { s with
        server := server
        accepted := s.accepted + 1
        owner := Function.update s.owner i (some s.accepted)
        slotOf := Function.update s.slotOf s.accepted (some i) }
  | .readable i received =>
    match s.owner i with
    | none => { s with server := server }
    | some c =>
      { s with
        server := server
        owner := if received = [] then Function.update s.owner i none else s.owner
        received := Function.update s.received c (s.received c ++ received)
        calls := s.calls ++ calls.map (fun p => (c, p)) }

/-- What can happen: sockets are not 0, the bytes of a connection arrive in order, in
pieces that one `recv` takes and that fit behind what its buffer holds. -/
def Allowed (sends : ℕ → List SentPackage) (s : Session) : Event → Prop
  | .accept newSocket => newSocket ≠ 0
  | .readable i received =>
    ∃ c, s.owner i = some c ∧ received.length ≤ MAXRECV ∧
      s.received c ++ received <+: streamOf SentPackage.bytes (sends c) ∧
      ∀ b, s.server.packageBuffer i = some b → b.receiveCount + received.length ≤ MAXRECV

def Step (sends : ℕ → List SentPackage) (fuel : ℕ) (s : Session) (e : Event) (t : Session) :
    Prop :=
  s.Allowed sends e ∧ ∃ server calls,
    mainServerLoop fuel s.server e = .ok (server, calls) ∧ t = s.record server calls e

/-- What holds of the books in every state. -/
structure Inv (sends : ℕ → List SentPackage) (s : Session) : Prop where
  open_iff : ∀ i, s.owner i = none ↔ s.server.clientSocket i = 0
  fresh : ∀ c, s.accepted ≤ c → s.slotOf c = none
  slot : ∀ i c, s.owner i = some c → s.slotOf c = some i
  stream : ∀ c, s.received c <+: streamOf SentPackage.bytes (sends c)
  unseen : ∀ c, s.slotOf c = none → s.received c = [] ∧ s.callsOf c = []
  buffer : ∀ i c, s.owner i = some c → ∃ b, s.server.packageBuffer i = some b ∧
    Holds b (pending SentPackage.bytes (sends c) (s.received c))
  calls : ∀ i c, s.slotOf c = some i → s.callsOf c =
    (arrived SentPackage.bytes (sends c) (s.received c).length).map (SentPackage.handedOn i)

theorem inv_init (sends : ℕ → List SentPackage) : Inv sends init where
  open_iff := by simp [init, initServerInfo]
  fresh := by simp [init]
  slot := by simp [init]
  stream := by simp [init]
  unseen := by simp [init, callsOf]
  buffer := by simp [init]
  calls := by simp [init]

section

variable {sends : ℕ → List SentPackage} {fuel : ℕ} {s : Session}

/-- A piece that arrives for a connection hands on the packages that it completes. -/
theorem Inv.piece (hinv : Inv sends s) (hfuel : MAXRECV < fuel) {i : Slot} {c : ℕ}
    {received : List Byte} (howner : s.owner i = some c) (hne : received ≠ [])
    (hallowed : s.Allowed sends (.readable i received)) :
    ∃ b ms, mainServerLoop fuel s.server (.readable i received) =
        .ok ({ s.server with packageBuffer := Function.update s.server.packageBuffer i (some b) },
          ms.map (SentPackage.handedOn i)) ∧
      Holds b (pending SentPackage.bytes (sends c) (s.received c ++ received)) ∧
      arrived SentPackage.bytes (sends c) (s.received c ++ received).length =
        arrived SentPackage.bytes (sends c) (s.received c).length ++ ms := by
  obtain ⟨c', hc', -, hstream, hroom⟩ := hallowed
  obtain rfl : c = c' := Option.some.inj (howner.symm.trans hc')
  obtain ⟨b, hb, hholds⟩ := hinv.buffer i c howner
  have hcount := hroom b hb
  rw [hholds.count] at hcount
  obtain ⟨b₁, hstore, hholds₁⟩ := storeReceived_holds hholds received (by omega)
  obtain ⟨ms, left, hdrains, hstands⟩ := isReader.drains_piece
    (stands_arrived SentPackage.bytes (sends c) (s.received c) (hinv.stream c)) hstream
  have hms := hdrains.length_le (fun _ _ _ htakes => htakes.1)
  have henough : ms.length < fuel := by
    have := hholds₁.length_le
    omega
  obtain ⟨b₂, hloop, hholds₂⟩ := drainLoop_of_drains hdrains i hholds₁ henough
  obtain ⟨hdone, rfl⟩ := hstands.unique
  have hsocket : s.server.clientSocket i ≠ 0 := by
    intro hzero
    rw [(hinv.open_iff i).mpr hzero] at howner
    cases howner
  refine ⟨b₂, ms, ?_, hholds₂, hdone.symm⟩
  simp only [mainServerLoop, hsocket, ↓reduceIte, readClient, hne, hb, hstore, ok_bind, hloop]

theorem callsOf_append (s : Session) (c c' : ℕ) (calls : List IoTPackage) :
    ((s.calls ++ calls.map (fun p => (c, p))).filter (fun call => call.1 = c')).map Prod.snd =
      s.callsOf c' ++ (if c = c' then calls else []) := by
  rw [List.filter_append, List.map_append, callsOf]
  congr 1
  split
  · rename_i h
    simp [h, List.filter_map, Function.comp_def]
  · rename_i h
    simp [h, List.filter_map, Function.comp_def]

/-- No allowed event leads the manager outside its arrays or keeps it in a loop. -/
theorem Inv.progress (hinv : Inv sends s) (hfuel : MAXRECV < fuel) {e : Event}
    (hallowed : s.Allowed sends e) : ∃ t, Step sends fuel s e t := by
  cases e with
  | accept newSocket => exact ⟨_, hallowed, _, _, rfl, rfl⟩
  | readable i received =>
    by_cases hne : received = []
    · subst hne
      by_cases hsocket : s.server.clientSocket i = 0
      · exact ⟨_, hallowed, _, _, if_pos hsocket, rfl⟩
      · exact ⟨_, hallowed, _, _, if_neg hsocket, rfl⟩
    · obtain ⟨c, howner, -⟩ := id hallowed
      obtain ⟨b, ms, hstep, -⟩ := hinv.piece hfuel howner hne hallowed
      exact ⟨_, hallowed, _, _, hstep, rfl⟩

theorem Inv.accept (hinv : Inv sends s) {newSocket : IoTSocket} (hpos : newSocket ≠ 0)
    (calls : List IoTPackage) :
    Inv sends (s.record (acceptClient s.server newSocket) calls (.accept newSocket)) := by
  cases hfree : freeSlot s.server.clientSocket with
  | none =>
    have hserver : acceptClient s.server newSocket = s.server := by
      simp only [acceptClient, hfree]
    simp only [record, hfree, hserver]
    exact { hinv with fresh := fun c hc => hinv.fresh c (by simp only at hc; omega) }
  | some i =>
    have hseen := hinv.unseen s.accepted (hinv.fresh s.accepted le_rfl)
    have hpending : pending SentPackage.bytes (sends s.accepted) (s.received s.accepted) = [] := by
      simp [hseen.1, pending]
    have harrived :
        arrived SentPackage.bytes (sends s.accepted) (s.received s.accepted).length = [] := by
      rw [hseen.1]
      cases sends s.accepted with
      | nil => rfl
      | cons m rest => exact arrived_cons_unfinished _ _ _ _ m.bytes_pos
    simp only [record, hfree, acceptClient]
    refine ⟨?_, ?_, ?_, hinv.stream, ?_, ?_, ?_⟩
    · intro j
      by_cases hj : j = i
      · subst hj
        simp [hpos]
      · simp only [Function.update_of_ne hj]
        exact hinv.open_iff j
    · intro c hc
      simp only at hc ⊢
      rw [Function.update_of_ne (by omega)]
      exact hinv.fresh c (by omega)
    · intro j c hj
      by_cases hji : j = i
      · subst hji
        simp only [Function.update_self, Option.some.injEq] at hj
        subst hj
        simp
      · simp only [Function.update_of_ne hji] at hj
        have hslot := hinv.slot j c hj
        have hc : c ≠ s.accepted := by
          rintro rfl
          rw [hinv.fresh _ le_rfl] at hslot
          cases hslot
        simp only [Function.update_of_ne hc]
        exact hslot
    · intro c hc
      by_cases hca : c = s.accepted
      · subst hca
        exact hseen
      · simp only [Function.update_of_ne hca] at hc
        exact hinv.unseen c hc
    · intro j c hj
      by_cases hji : j = i
      · subst hji
        simp only [Function.update_self, Option.some.injEq] at hj
        subst hj
        exact ⟨generatePackageBuffer, by simp, hpending ▸ holds_generated⟩
      · simp only [Function.update_of_ne hji] at hj ⊢
        exact hinv.buffer j c hj
    · intro j c hj
      by_cases hca : c = s.accepted
      · subst hca
        rw [harrived]
        exact hseen.2
      · simp only [Function.update_of_ne hca] at hj
        exact hinv.calls j c hj

theorem Inv.close (hinv : Inv sends s) {i : Slot} {c : ℕ} (howner : s.owner i = some c) :
    Inv sends (s.record (closeClient s.server i) [] (.readable i [])) := by
  simp only [record, howner, closeClient, ↓reduceIte, List.append_nil, List.map_nil,
    Function.update_eq_self]
  refine ⟨?_, hinv.fresh, ?_, hinv.stream, hinv.unseen, ?_, hinv.calls⟩
  · intro j
    by_cases hj : j = i
    · subst hj
      simp
    · simp only [Function.update_of_ne hj]
      exact hinv.open_iff j
  · intro j c' hj
    by_cases hji : j = i
    · subst hji
      simp at hj
    · simp only [Function.update_of_ne hji] at hj
      exact hinv.slot j c' hj
  · intro j c' hj
    by_cases hji : j = i
    · subst hji
      simp at hj
    · simp only [Function.update_of_ne hji] at hj ⊢
      exact hinv.buffer j c' hj

theorem Inv.readable (hinv : Inv sends s) (hfuel : MAXRECV < fuel) {i : Slot} {c : ℕ}
    {received : List Byte} (howner : s.owner i = some c) (hne : received ≠ [])
    (hallowed : s.Allowed sends (.readable i received)) {server : ServerState}
    {calls : List IoTPackage}
    (hstep : mainServerLoop fuel s.server (.readable i received) = .ok (server, calls)) :
    Inv sends (s.record server calls (.readable i received)) := by
  obtain ⟨b, ms, hpiece, hholds, harrived⟩ := hinv.piece hfuel howner hne hallowed
  obtain ⟨rfl, rfl⟩ := Prod.mk.inj (Except.ok.inj (hstep.symm.trans hpiece))
  obtain ⟨c', hc', -, hstream, -⟩ := hallowed
  obtain rfl : c = c' := Option.some.inj (howner.symm.trans hc')
  have hslot := hinv.slot i c howner
  simp only [record, howner, hne, ↓reduceIte]
  refine ⟨hinv.open_iff, hinv.fresh, hinv.slot, ?_, ?_, ?_, ?_⟩
  · intro c'
    by_cases hc : c' = c
    · subst hc
      simpa using hstream
    · simp only [Function.update_of_ne hc]
      exact hinv.stream c'
  · intro c' hc'
    have hc : c' ≠ c := by
      rintro rfl
      rw [hslot] at hc'
      cases hc'
    simp only [Function.update_of_ne hc]
    refine ⟨(hinv.unseen c' hc').1, ?_⟩
    simp only [callsOf, callsOf_append, if_neg (Ne.symm hc), List.append_nil]
    exact (hinv.unseen c' hc').2
  · intro j c' hj
    by_cases hji : j = i
    · subst hji
      obtain rfl : c = c' := Option.some.inj (howner.symm.trans hj)
      exact ⟨b, by simp, by simpa using hholds⟩
    · have hc : c' ≠ c := by
        rintro rfl
        exact hji (Option.some.inj ((hinv.slot j c' hj).symm.trans hslot))
      simp only [Function.update_of_ne hji, Function.update_of_ne hc]
      exact hinv.buffer j c' hj
  · intro j c' hj
    have hbefore := hinv.calls j c' hj
    by_cases hc : c' = c
    · subst hc
      obtain rfl : i = j := Option.some.inj (hslot.symm.trans hj)
      simp only [callsOf, callsOf_append, ↓reduceIte, Function.update_self]
      rw [harrived, List.map_append, ← hbefore]
      rfl
    · simp only [callsOf, callsOf_append, if_neg (Ne.symm hc), List.append_nil,
        Function.update_of_ne hc]
      exact hbefore

theorem Inv.step (hinv : Inv sends s) (hfuel : MAXRECV < fuel) {e : Event} {t : Session}
    (hstep : Step sends fuel s e t) : Inv sends t := by
  obtain ⟨hallowed, server, calls, hloop, rfl⟩ := hstep
  cases e with
  | accept newSocket =>
    obtain ⟨rfl, rfl⟩ := Prod.mk.inj (Except.ok.inj hloop)
    exact hinv.accept hallowed []
  | readable i received =>
    obtain ⟨c, howner, -⟩ := id hallowed
    by_cases hne : received = []
    · subst hne
      have hsocket : s.server.clientSocket i ≠ 0 := by
        intro hzero
        rw [(hinv.open_iff i).mpr hzero] at howner
        cases howner
      rw [mainServerLoop, if_neg hsocket, readClient, if_pos rfl] at hloop
      obtain ⟨rfl, rfl⟩ := Prod.mk.inj (Except.ok.inj hloop)
      exact hinv.close howner
    · exact hinv.readable hfuel howner hne hallowed hloop

end

end Session

/-- In every run of the manager: what it has handed on for a connection is the packages
of the connection that have arrived whole, once each and in order, for the slot the
connection got; the buffer of an open slot holds the unfinished tail; and the next event
is handled too. -/
theorem reassembly (sends : ℕ → List SentPackage) (fuel : ℕ) (hfuel : MAXRECV < fuel)
    {es : List Event} {s : Session} (hrun : Run (Session.Step sends fuel) Session.init es s) :
    (∀ i c, s.slotOf c = some i → s.callsOf c =
      (arrived SentPackage.bytes (sends c) (s.received c).length).map
        (SentPackage.handedOn i)) ∧
    (∀ c, s.slotOf c = none → s.callsOf c = []) ∧
    (∀ i c, s.owner i = some c → s.slotOf c = some i ∧
      ∃ b, s.server.packageBuffer i = some b ∧
        b.receiveCount = (pending SentPackage.bytes (sends c) (s.received c)).length ∧
        b.tempBuffer.take b.receiveCount.toNat =
          pending SentPackage.bytes (sends c) (s.received c)) ∧
    (∀ e, s.Allowed sends e → ∃ t, Session.Step sends fuel s e t) := by
  have hinv : Session.Inv sends s :=
    hrun.invariant (Session.Inv sends) (fun _ _ _ hs hstep => hs.step hfuel hstep)
      (Session.inv_init sends)
  refine ⟨hinv.calls, fun c hc => (hinv.unseen c hc).2, ?_, fun e he => hinv.progress hfuel he⟩
  intro i c howner
  obtain ⟨b, hb, hholds⟩ := hinv.buffer i c howner
  refine ⟨hinv.slot i c howner, b, hb, hholds.count, ?_⟩
  obtain ⟨behind, hbehind⟩ := hholds.front
  rw [hholds.count, Int.toNat_natCast, ← hbehind, List.take_left]

/-- A package cut inside its version, on the first connection of the manager. -/
theorem reassembly_two_pieces :
    ∃ (m : SentPackage) (s : Session), m.data = [0, 3, 0] ∧
      Run (Session.Step (fun _ => [m]) (MAXRECV + 1)) Session.init
        [.accept 4, .readable 0 (m.bytes.take 5), .readable 0 (m.bytes.drop 5)] s ∧
      s.callsOf 0 = [m.handedOn 0] := by
  obtain ⟨m, -, -, hdata⟩ := SentPackage.exists_of (ascii "DEV.0") (ascii "DEV.1") [0, 3, 0]
    ⟨by decide, by decide, by decide⟩ ⟨by decide, by decide, by decide⟩ (by decide)
  have hfuel : MAXRECV < MAXRECV + 1 := Nat.lt_succ_self _
  have hsize := m.bytes_eq.2
  have hstream : streamOf SentPackage.bytes [m] = m.bytes := by simp
  have hfree : freeSlot initServerInfo.clientSocket = some 0 := by decide
  have hlong : 7 ≤ m.bytes.length := by
    have := m.isCreated.header_length_le m.sor m.des
    rw [m.bytes_eq.1, m.isCreated.wireBytes_length m.sor m.des]
    omega
  have hroom : ∀ (s : Session) (piece : List Byte), Session.Inv (fun _ => [m]) s →
      s.owner 0 = some 0 → s.received 0 ++ piece <+: m.bytes →
      s.Allowed (fun _ => [m]) (.readable 0 piece) := by
    intro s piece hinv howner hbegins
    have hle := hbegins.length_le
    rw [List.length_append] at hle
    refine ⟨0, howner, by omega, by rw [hstream]; exact hbegins, ?_⟩
    intro b hb
    obtain ⟨b', hb', hholds⟩ := hinv.buffer 0 0 howner
    obtain rfl := Option.some.inj (hb.symm.trans hb')
    have hpending : (pending SentPackage.bytes [m] (s.received 0)).length ≤
        (s.received 0).length := by simp [pending]
    rw [hholds.count]
    omega
  have hinv₀ := Session.inv_init (fun _ => [m])
  obtain ⟨s₁, hs₁⟩ := hinv₀.progress hfuel (e := .accept 4) (by simp [Session.Allowed])
  have hinv₁ := hinv₀.step hfuel hs₁
  have hknown₁ : s₁.owner 0 = some 0 ∧ s₁.received 0 = [] ∧ s₁.slotOf 0 = some 0 := by
    obtain ⟨-, server, calls, -, rfl⟩ := id hs₁
    simp [Session.record, Session.init, hfree]
  obtain ⟨s₂, hs₂⟩ := hinv₁.progress hfuel (hroom s₁ (m.bytes.take 5) hinv₁ hknown₁.1 (by
    rw [hknown₁.2.1]
    exact List.take_prefix ..))
  have hinv₂ := hinv₁.step hfuel hs₂
  have hknown₂ : s₂.owner 0 = some 0 ∧ s₂.received 0 = m.bytes.take 5 ∧
      s₂.slotOf 0 = some 0 := by
    obtain ⟨-, server, calls, -, rfl⟩ := id hs₂
    have hne : m.bytes.take 5 ≠ [] := by
      rw [← List.length_pos_iff, List.length_take]
      omega
    simp only [Session.record, hknown₁, hne, ↓reduceIte]
    simp
  obtain ⟨s₃, hs₃⟩ := hinv₂.progress hfuel (hroom s₂ (m.bytes.drop 5) hinv₂ hknown₂.1 (by
    rw [hknown₂.2.1, List.take_append_drop]))
  have hknown₃ : s₃.received 0 = m.bytes ∧ s₃.slotOf 0 = some 0 := by
    obtain ⟨-, server, calls, -, rfl⟩ := id hs₃
    simp [Session.record, hknown₂]
  have hrun := ((Run.nil Session.init).snoc hs₁ |>.snoc hs₂).snoc hs₃
  refine ⟨m, s₃, hdata, hrun, ?_⟩
  have hcalls := (reassembly (fun _ => [m]) (MAXRECV + 1) hfuel hrun).1 0 0 hknown₃.2
  rw [hcalls, hknown₃.1]
  simp [arrived]

end IoTRepublic.Reassembly
