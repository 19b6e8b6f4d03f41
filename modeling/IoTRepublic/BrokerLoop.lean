import IoTRepublic.ReadRequest
import IoTRepublic.Reassembly

/-!
The loop of a broker. The bytes from the manager arrive in pieces of any size; behind
each piece the broker takes the packages that are complete, sends the ID of each
command to its device, waits for the answer where it expects one, and returns it to
the sender of the command. However the bytes are cut, every package for a device is
served once, in order, and the answers go back in the same order.
-/
namespace IoTRepublic.BrokerLoop

open CheckedArray Package PackageReader CreatedPackage JsFileParser Command CommandText
  CommandCodec Manager SerialFrame ReadRequest Framing Runs
open Reassembly (SentPackage Holds)

/-- What one round meets: the table of the devices, whether the device is reached, the status of
the sent command at the API broker, what comes over the line, and the memory. -/
structure Surroundings where
  devices : DeviceIps
  connected : Bool
  status : List Byte
  polls : List (List Byte)
  memory : Memory

def serve (broker : Broker) (o : Surroundings) (s : Loop) : Exec Round :=
  match broker with
  | .xbeeAt => xbeeAtListenToManagerLoop o.connected o.polls o.devices o.memory s
  | .xbeeApi => xbeeApiListenToManagerLoop (o.status :: o.polls) o.devices o.memory s
  | .ble => bleListenToManagerLoop o.connected o.polls o.devices o.memory s

/-- The `do … while` behind a `recv`: the rounds that found a package. The first of them meets
`meets 0`. -/
def drainRounds (broker : Broker) : ℕ → (ℕ → Surroundings) → Loop → Exec (Loop × List Round)
  | 0, _, _ => .error .unfinished
  | fuel + 1, meets, s => do
    let round ← serve broker (meets 0) s
    if round.result = .completed then do
      let (s, rounds) ← drainRounds broker fuel (fun k => meets (k + 1)) round.loop
      .ok (s, round :: rounds)
    else .ok (round.loop, [])

/-- One round of the endless loop, in which `recv` gave these bytes. -/
def recvFromManager (broker : Broker) (fuel : ℕ) (meets : ℕ → Surroundings) (s : Loop)
    (received : List Byte) : Exec (Loop × List Round) :=
  if received = [] then .ok (s, [])
  else do
    let tempBuf ← charcat s.tempBuf received s.offset received.length
    drainRounds broker fuel meets
      { s with tempBuf := tempBuf, offset := s.offset + received.length }

def initLoop : Loop where
  tempBuf := List.replicate MAXRECV 0
  offset := 0
  recvPackage := generateIotPackage
  recvBuf := List.replicate recvBufSize 0
  len := 0

/-- The broker, the bytes it has received and the rounds that found a package. -/
structure Session where
  loop : Loop
  received : List Byte
  rounds : List Round

def Session.init : Session := ⟨initLoop, [], []⟩

/-- A piece of the bytes that are sent to the broker arrives. The `k`-th package that is found is
served in the surroundings `meets k`. -/
def Step (broker : Broker) (stream : List Byte) (meets : ℕ → Surroundings) (fuel : ℕ)
    (s : Session) (piece : List Byte) (t : Session) : Prop :=
  s.received ++ piece <+: stream ∧ ∃ loop rounds,
    recvFromManager broker fuel (fun k => meets (s.rounds.length + k)) s.loop piece =
      .ok (loop, rounds) ∧
    t = ⟨loop, s.received ++ piece, s.rounds ++ rounds⟩

/-- The bytes are those of packages. -/
abbrev PackageStep (broker : Broker) (sends : List SentPackage) (meets : ℕ → Surroundings)
    (fuel : ℕ) : Session → List Byte → Session → Prop :=
  Step broker (streamOf SentPackage.bytes sends) meets fuel

/-- The package is a command whose texts fit their arrays. -/
structure Carries (m : SentPackage) (type : CommandType) (id value : List Byte) : Prop where
  text : ∃ name rest, typeText type = some name ∧
    m.data = cmdContent (cmdTexts name id value) ++ 0 :: rest
  idText : IsFieldText id
  idShort : id.length ≤ 9
  valueText : IsFieldText value
  valueShort : value.length ≤ 9

/-- A device of the table has this address. -/
def Knows (devices : DeviceIps) (a : List Byte) : Prop :=
  ∃ i d, devices i = some d ∧ d.ipLength = a.length ∧ d.ip.bytes.take a.length = a

/-- The device is in the table and, unless the broker sends without connecting, reached. -/
def Reaches (broker : Broker) (o : Surroundings) (a : List Byte) : Prop :=
  Knows o.devices a ∧ (broker = .xbeeApi ∨ o.connected = true)

/-- The API broker waits for an answer to a read request only. -/
def Expects (broker : Broker) (type : CommandType) : Prop :=
  broker = .xbeeApi → type = .readRequest

/-- The device says nothing that ends, or one framed text. -/
inductive Says (polls : List (List Byte)) : Option (List Byte) → Prop
  | nothing : endCode ∉ polls.flatten → polls.flatten.length ≤ MAXRECVBUFFER → Says polls none
  | text {payload : List Byte} : IsFieldText payload →
      polls.flatten = startCode :: payload ++ [endCode] → Says polls (some payload)

/-- The response goes the other way round, with the same ID and the text of the device; it fits
the array that a broker sends from. -/
structure Responds (m : SentPackage) (id payload : List Byte) (response : SentPackage) : Prop where
  source : response.sorIp = m.desIp
  destination : response.desIp = m.sorIp
  carries : Carries response .readResponse id payload
  fits : response.bytes.length ≤ 1000

/-- What the device and the manager get in a round. -/
inductive Handles (broker : Broker) (o : Surroundings) (m : SentPackage) :
    Option (List Byte) → Option SentPackage → Prop
  | ignored : ¬ Reaches broker o m.desIp → Handles broker o m none none
  | told {type : CommandType} {id value : List Byte} : Reaches broker o m.desIp →
      Carries m type id value → ¬ Expects broker type →
        Handles broker o m (some (startCode :: (id ++ [endCode]))) none
  | silent {type : CommandType} {id value : List Byte} : Reaches broker o m.desIp →
      Carries m type id value → Expects broker type → Says o.polls none →
        Handles broker o m (some (startCode :: (id ++ [endCode]))) none
  | answered {type : CommandType} {id value payload : List Byte} {response : SentPackage} :
      Reaches broker o m.desIp → Carries m type id value → Expects broker type →
        Says o.polls (some payload) → Responds m id payload response →
          Handles broker o m (some (startCode :: (id ++ [endCode]))) (some response)

/-- What the broker relies on: what it sends to a device is a command, and an answer is short
enough for the text of its response. -/
structure Orderly (broker : Broker) (o : Surroundings) (m : SentPackage) : Prop where
  command : Reaches broker o m.desIp → ∃ type id value, Carries m type id value
  answer : ∃ said, Says o.polls said
  room : ∀ type id value payload, Carries m type id value → Says o.polls (some payload) →
    payload.length ≤ 9 ∧ responseLength id payload < maxCmdBufSize

/-- The rounds serve these packages in order, with these responses. -/
inductive Served (broker : Broker) : (ℕ → Surroundings) → List SentPackage → List Round →
    List SentPackage → Prop
  | nil (meets : ℕ → Surroundings) : Served broker meets [] [] []
  | cons {meets : ℕ → Surroundings} {m : SentPackage} {ms responses : List SentPackage}
      {round : Round} {rounds : List Round} {response : Option SentPackage} :
      Handles broker (meets 0) m round.toDevice response →
        round.toManager = response.map SentPackage.bytes →
          Served broker (fun k => meets (k + 1)) ms rounds responses →
            Served broker meets (m :: ms) (round :: rounds) (response.toList ++ responses)

theorem Served.length_eq {broker : Broker} {meets : ℕ → Surroundings}
    {ms responses : List SentPackage} {rounds : List Round}
    (h : Served broker meets ms rounds responses) : rounds.length = ms.length := by
  induction h with
  | nil => rfl
  | cons _ _ _ ih => rw [List.length_cons, List.length_cons, ih]

/-- The bytes of the responses are what was sent to the manager. -/
theorem Served.sent {broker : Broker} {meets : ℕ → Surroundings} {ms responses : List SentPackage}
    {rounds : List Round} (h : Served broker meets ms rounds responses) :
    rounds.filterMap Round.toManager = responses.map SentPackage.bytes := by
  induction h with
  | nil => rfl
  | @cons _ _ _ _ _ _ response _ hsent _ ih =>
    cases response with
    | none =>
      rw [List.filterMap_cons_none hsent, ih]
      rfl
    | some response =>
      rw [List.filterMap_cons_some hsent, ih]
      rfl

/-- Every response is one to a package that was served. -/
theorem Served.exists_request {broker : Broker} {meets : ℕ → Surroundings}
    {ms responses : List SentPackage} {rounds : List Round} {response : SentPackage}
    (h : Served broker meets ms rounds responses) (hresponse : response ∈ responses) :
    ∃ m ∈ ms, ∃ id payload, Responds m id payload response := by
  induction h with
  | nil => cases hresponse
  | @cons meets m ms responses round rounds said hhandles _ _ ih =>
    rcases List.mem_append.mp hresponse with hfirst | hlater
    · rw [Option.mem_toList] at hfirst
      subst hfirst
      generalize round.toDevice = toDevice at hhandles
      cases hhandles with
      | @answered type id value payload response _ _ _ _ hresponds =>
        exact ⟨m, List.mem_cons_self, id, payload, hresponds⟩
    · obtain ⟨m', hm', hresponds⟩ := ih hlater
      exact ⟨m', List.mem_cons_of_mem _ hm', hresponds⟩

theorem Served.append {broker : Broker} {meets : ℕ → Surroundings}
    {ms ms' responses responses' : List SentPackage} {rounds rounds' : List Round}
    (h : Served broker meets ms rounds responses)
    (h' : Served broker (fun k => meets (rounds.length + k)) ms' rounds' responses') :
    Served broker meets (ms ++ ms') (rounds ++ rounds') (responses ++ responses') := by
  induction h with
  | nil meets =>
    simp only [List.length_nil, Nat.zero_add] at h'
    exact h'
  | cons hhandles hsent _ ih =>
    rw [List.append_assoc]
    refine .cons hhandles hsent (ih ?_)
    simp only [List.length_cons, Nat.add_right_comm _ 1] at h'
    exact h'

section

variable {broker : Broker} {o : Surroundings} {m : SentPackage} {s : Loop} {rest : List Byte}

theorem Carries.decode {type : CommandType} {id value : List Byte} (h : Carries m type id value)
    (document : LocalJson) (cmd₀ : IoTCommand) :
    ∃ cmd, decodeIotCmd document.json m.data cmd₀ = .ok cmd ∧ cmd.cmdType = type ∧
      cmd.ID.text = .ok id ∧ cmd.Value.text = .ok value := by
  obtain ⟨name, behind, htype, hdata⟩ := h.text
  obtain ⟨ID, hID⟩ := CharArray.exists_ofText COMMAND_CHAR_SIZE id (Nat.succ_le_succ h.idShort)
  obtain ⟨Value, hValue⟩ := CharArray.exists_ofText COMMAND_CHAR_SIZE value
    (Nat.succ_le_succ h.valueShort)
  have hdecode : decodeIotCmd document.json _ cmd₀ = _ :=
    decodeIotCmd_eq document.content document.tokens (typeText_isTypeText htype) h.idText.isWord
      h.valueText.isWord (lt_of_le_of_lt h.idShort (by decide))
      (lt_of_le_of_lt h.valueShort (by decide)) behind
  rw [hID, ok_bind, hValue, ok_bind, typeOfText_typeText htype] at hdecode
  refine ⟨⟨type, ID, Value⟩, hdata ▸ hdecode, rfl, ?_, ?_⟩
  · exact CharArray.ofText_text hID h.idText.isWord.noNul
  · exact CharArray.ofText_text hValue h.valueText.isWord.noNul

/-- A package is one command at most. -/
theorem Carries.id_eq {type type' : CommandType} {id id' value value' : List Byte}
    (h : Carries m type id value) (h' : Carries m type' id' value') : id = id' := by
  obtain ⟨cmd, hdecode, -, hid, -⟩ := h.decode blankLocal generateIotCommand
  obtain ⟨cmd', hdecode', -, hid', -⟩ := h'.decode blankLocal generateIotCommand
  obtain rfl := Except.ok.inj (hdecode.symm.trans hdecode')
  exact Except.ok.inj (hid.symm.trans hid')

/-- The record that is found for the package. -/
theorem exists_of_findDeviceIndex {devices : DeviceIps} {m : SentPackage}
    {i : Fin MAXDEVICECOUNT} (h : findDeviceIndexByIoTIp devices m.package.desIp = some i) :
    ∃ d, devices i = some d ∧ d.ipLength = m.desIp.length ∧
      d.ip.bytes.take m.desIp.length = m.desIp := by
  have hi := Fin.eq_true_of_find?_eq_some h
  cases hd : devices i with
  | none => simp [hd] at hi
  | some d =>
    simp only [hd, decide_eq_true_eq, m.isCreated.desLength, Int.toNat_natCast,
      CharArray.ofText_bytes m.isCreated.des] at hi
    exact ⟨d, rfl, hi⟩

theorem isSome_findDeviceIndexByIoTIp (devices : DeviceIps) (m : SentPackage) :
    (findDeviceIndexByIoTIp devices m.package.desIp).isSome ↔ Knows devices m.desIp := by
  constructor
  · intro hfound
    obtain ⟨i, hi⟩ := Option.isSome_iff_exists.mp hfound
    obtain ⟨d, hd, hip⟩ := exists_of_findDeviceIndex hi
    exact ⟨i, d, hd, hip⟩
  · rintro ⟨i, d, hd, hlen, htext⟩
    rw [findDeviceIndexByIoTIp, Fin.isSome_find?_iff]
    refine ⟨i, ?_⟩
    simp only [hd, decide_eq_true_eq, m.isCreated.desLength, Int.toNat_natCast,
      CharArray.ofText_bytes m.isCreated.des]
    exact ⟨hlen, htext⟩

def connects (broker : Broker) (connected : Bool) : Bool :=
  match broker with
  | .xbeeApi => true
  | _ => connected

def answers (broker : Broker) (type : CommandType) : Bool :=
  match broker with
  | .xbeeApi => type == .readRequest
  | _ => true

/-- The three brokers but for what they differ in. -/
theorem serve_eq (broker : Broker) (o : Surroundings) (s : Loop) :
    serve broker o s = listenToManagerLoop (connects broker o.connected) (answers broker)
      commandFrame (recvCommand o.polls) o.devices o.memory s := by
  cases broker <;> rfl

theorem answers_iff (broker : Broker) (type : CommandType) :
    answers broker type = true ↔ Expects broker type := by
  cases broker <;> simp [answers, Expects]

theorem reaches_iff (broker : Broker) (o : Surroundings) (m : SentPackage) :
    (findDeviceIndexByIoTIp o.devices m.package.desIp).isSome ∧
      connects broker o.connected = true ↔ Reaches broker o m.desIp := by
  rw [isSome_findDeviceIndexByIoTIp, Reaches]
  cases broker <;> simp [connects]

/-- A response short enough for its array is one package, the other way round. -/
theorem exists_response {type : CommandType} {id value payload : List Byte} {cmd : IoTCommand}
    (h : Carries m type id value) (hid : cmd.ID.text = .ok id) (hpayload : IsFieldText payload)
    (hlen : payload.length ≤ 9) (hshort : responseLength id payload < maxCmdBufSize)
    (memory : Memory) (behind : List Byte) (socketIdx : ℤ) :
    ∃ response : SentPackage, Responds m id payload response ∧
      sendResponse memory { m.package with belongSocketIdx := socketIdx } cmd (payload ++ behind)
        payload.length = .ok response.bytes := by
  have hten : COMMAND_CHAR_SIZE = 10 := rfl
  have hfifty : maxCmdBufSize = 50 := rfl
  have hmax : MAXRECV = 2000 := rfl
  obtain ⟨hsource, hdestination⟩ := m.isCreated.texts m.sor m.des
  obtain ⟨q, hq, hsend⟩ : ∃ q, Created generateIotPackage m.desIp m.sorIp
      (cmdContent (cmdTexts (ascii "Res") id payload) ++ [0]) q ∧
      sendResponse memory { m.package with belongSocketIdx := socketIdx } cmd (payload ++ behind)
        payload.length = .ok (wireBytes q) :=
    sendResponse_eq behind hid h.idText hpayload (by omega) hshort
      (fun hfull => absurd hfull (by omega)) hsource hdestination m.sor m.des
  have hdata : (cmdContent (cmdTexts (ascii "Res") id payload) ++ [0]).length =
      responseLength id payload + 1 := by
    rw [List.length_append, responseText_length, List.length_singleton]
  have hheader := hq.header_length_le m.des m.sor
  have hwire := hq.wireBytes_length m.des m.sor
  refine ⟨⟨m.desIp, m.sorIp, _, q, wireBytes q, m.des, m.sor, createPackage_eq_ok.mpr hq,
    ⟨_, (hq.encodePackage_eq_ok m.des m.sor).mpr ⟨by omega, ?_, rfl⟩, (written_take _ _).symm⟩⟩,
    ⟨rfl, rfl, ⟨⟨ascii "Res", [], rfl, rfl⟩, h.idText, h.idShort, hpayload, hlen⟩, ?_⟩, hsend⟩
  · rw [List.length_replicate]
    omega
  · dsimp only
    omega

/-- The round that finds the package. -/
theorem exists_round (hrecvBuf : s.recvBuf.length = recvBufSize)
    (hholds : Holds ⟨s.tempBuf, s.offset⟩ (m.bytes ++ rest)) (horderly : Orderly broker o m) :
    ∃ round response, serve broker o s = .ok round ∧ round.result = .completed ∧
      Holds ⟨round.loop.tempBuf, round.loop.offset⟩ rest ∧
      round.loop.recvBuf.length = recvBufSize ∧ Handles broker o m round.toDevice response ∧
      round.toManager = response.map SentPackage.bytes := by
  obtain ⟨b, hread, hrest⟩ := hholds.reads_package m s.recvPackage
  dsimp only at hread
  have hreaches := reaches_iff broker o m
  rw [serve_eq, listenToManagerLoop, hread, ok_bind]
  dsimp only
  by_cases hcase : Reaches broker o m.desIp
  swap
  · rw [if_neg fun h => hcase (hreaches.mp h.2)]
    exact ⟨_, none, rfl, rfl, hrest, hrecvBuf, .ignored hcase, rfl⟩
  obtain ⟨hknown, hconnected⟩ := hreaches.mpr hcase
  obtain ⟨type, id, value, hcarries⟩ := horderly.command hcase
  obtain ⟨cmd, hdecode, htype, hid, -⟩ := hcarries.decode o.memory.decoding generateIotCommand
  obtain ⟨hnul, hlen, behind, hbytes⟩ := CharArray.text_eq_ok hid
  have hcopy := strcpy_eq (List.replicate COMMAND_CHAR_SIZE 0) id behind hnul (by
    rw [List.length_replicate]
    exact hlen)
  have hframe := commandFrame_eq id
    (0 :: (List.replicate COMMAND_CHAR_SIZE (0 : Byte)).drop (id.length + 1))
  rw [← m.isCreated.data] at hdecode
  rw [if_pos ⟨rfl, hknown, hconnected⟩, hdecode, ok_bind, hbytes, hcopy, ok_bind,
    hid, ok_bind, hframe, ok_bind, htype]
  by_cases hexpects : Expects broker type
  swap
  · rw [if_neg fun h => hexpects ((answers_iff broker type).mp h)]
    exact ⟨_, none, rfl, rfl, hrest, hrecvBuf, .told hcase hcarries hexpects, rfl⟩
  rw [if_pos ((answers_iff broker type).mpr hexpects)]
  obtain ⟨said, hsaid⟩ := horderly.answer
  cases hsaid with
  | nothing hno hfits =>
    rw [recvCommand_silent hno hfits, ok_bind]
    exact ⟨_, none, rfl, rfl, hrest, hrecvBuf, .silent hcase hcarries hexpects (.nothing hno hfits),
      rfl⟩
  | @text payload hpayload hpolls =>
    obtain ⟨hnine, hshort⟩ := horderly.room type id value payload hcarries (.text hpayload hpolls)
    have hpos := List.length_pos_iff.mpr hpayload.ne_nil
    have hlong : (payload.length : ℤ) > 0 := by omega
    have hten : recvBufSize = 10 := rfl
    have hreceived := (recvCommand_answer (s := s) hpayload hrecvBuf hpolls _).mpr
      ⟨by omega, rfl⟩
    obtain ⟨response, hresponds, hsend⟩ := exists_response hcarries hid hpayload hnine hshort
      o.memory (s.recvBuf.drop payload.length) s.recvPackage.belongSocketIdx
    rw [hreceived, ok_bind, if_pos ⟨rfl, hlong⟩]
    dsimp only
    rw [hsend, ok_bind]
    refine ⟨_, some response, rfl, rfl, hrest, ?_,
      .answered hcase hcarries hexpects (.text hpayload hpolls) hresponds, rfl⟩
    simp only [List.length_append, List.length_drop, hrecvBuf]
    omega

/-- The round that finds no package ends the loop. -/
theorem serve_waiting (hread : ∃ q, getCompletedPackage s.tempBuf s.offset s.recvPackage =
    .ok ⟨.noerror, s.tempBuf, s.offset, q⟩) :
    ∃ q, serve broker o s = .ok ⟨.noerror, { s with recvPackage := q }, none, none⟩ := by
  obtain ⟨q, hq⟩ := hread
  refine ⟨q, ?_⟩
  rw [serve_eq, listenToManagerLoop, hq, ok_bind]
  exact if_neg fun h => RecvResult.noConfusion h.1

end

def Takes (held : List Byte) (m : SentPackage) (rest : List Byte) : Prop := held = m.bytes ++ rest

/-- A proper beginning of a package. -/
def Waits (held : List Byte) : Prop :=
  held = [] ∨ ∃ m : SentPackage, held <+: m.bytes ∧ held.length < m.bytes.length

theorem isReader : IsReader SentPackage.bytes Takes Waits where
  empty := .inl rfl
  complete _ _ := rfl
  unfinished m _ hpart hlt := .inr ⟨m, hpart, hlt⟩

theorem Takes.shorter {held rest : List Byte} {m : SentPackage} (h : Takes held m rest) :
    rest.length < held.length := by
  have hpos := m.bytes_pos
  rw [show held = m.bytes ++ rest from h, List.length_append]
  omega

theorem Waits.reads {s : Loop} {held : List Byte} (h : Waits held)
    (hholds : Holds ⟨s.tempBuf, s.offset⟩ held) :
    ∃ q, getCompletedPackage s.tempBuf s.offset s.recvPackage =
      .ok ⟨.noerror, s.tempBuf, s.offset, q⟩ := by
  rcases h with rfl | ⟨m, hpart, hlt⟩
  · exact hholds.reads_nothing s.recvPackage
  · exact hholds.reads_part hpart hlt s.recvPackage

section

variable {broker : Broker} {sends : List SentPackage} {meets : ℕ → Surroundings} {fuel : ℕ}

/-- The rounds behind a piece serve what the reader drains. -/
theorem exists_rounds {held left : List Byte} {ms : List SentPackage}
    (hdrains : Drains Takes Waits held ms left) {s : Loop}
    (hrecvBuf : s.recvBuf.length = recvBufSize) (hholds : Holds ⟨s.tempBuf, s.offset⟩ held)
    (horderly : ∀ k m, ms[k]? = some m → Orderly broker (meets k) m) (hfuel : ms.length < fuel) :
    ∃ t rounds responses, drainRounds broker fuel meets s = .ok (t, rounds) ∧
      Holds ⟨t.tempBuf, t.offset⟩ left ∧ t.recvBuf.length = recvBufSize ∧
      Served broker meets ms rounds responses := by
  induction hdrains generalizing s meets fuel with
  | stop hwaits =>
    obtain ⟨fuel, rfl⟩ : ∃ k, fuel = k + 1 := ⟨fuel - 1, by omega⟩
    obtain ⟨q, hserve⟩ : ∃ q, serve broker (meets 0) s = _ := serve_waiting (hwaits.reads hholds)
    refine ⟨{ s with recvPackage := q }, [], [], ?_, hholds, hrecvBuf, .nil meets⟩
    simp only [drainRounds, hserve, ok_bind, reduceCtorEq, ↓reduceIte]
  | @take held rest left m ms htakes _ ih =>
    obtain ⟨fuel, rfl⟩ : ∃ k, fuel = k + 1 := ⟨fuel - 1, by omega⟩
    obtain rfl := htakes
    obtain ⟨round, response, hserve, hcompleted, hrest, hbuf, hhandles, hsent⟩ :=
      exists_round hrecvBuf hholds (horderly 0 m rfl)
    rw [List.length_cons] at hfuel
    obtain ⟨t, rounds, responses, hloop, hleft, ht, hserved⟩ := ih hbuf hrest
      (fun k m' hm' => horderly (k + 1) m' hm') (Nat.lt_of_succ_lt_succ hfuel)
    refine ⟨t, round :: rounds, _, ?_, hleft, ht, .cons hhandles hsent hserved⟩
    simp only [drainRounds, hserve, ok_bind, hcompleted, ↓reduceIte, hloop]

/-- The broker holds the unfinished tail of what it has received, and has served the rest. -/
structure Inv (broker : Broker) (sends : List SentPackage) (meets : ℕ → Surroundings)
    (s : Session) : Prop where
  stream : s.received <+: streamOf SentPackage.bytes sends
  holds : Holds ⟨s.loop.tempBuf, s.loop.offset⟩ (pending SentPackage.bytes sends s.received)
  recvBuf : s.loop.recvBuf.length = recvBufSize
  served : ∃ responses, Served broker meets
    (arrived SentPackage.bytes sends s.received.length) s.rounds responses

theorem inv_init (broker : Broker) (sends : List SentPackage) (meets : ℕ → Surroundings) :
    Inv broker sends meets Session.init := by
  have hstands : Stands SentPackage.bytes sends [] [] [] :=
    ⟨sends, rfl, rfl, List.nil_prefix, fun m _ _ => m.bytes_pos⟩
  obtain ⟨hdone, hheld⟩ := hstands.unique
  refine ⟨List.nil_prefix, ?_, List.length_replicate, [], ?_⟩
  · exact hheld ▸ ⟨List.length_replicate, rfl, List.nil_prefix⟩
  · exact hdone ▸ .nil meets

/-- A piece that fits behind what the broker holds is served. -/
theorem Inv.exists_piece {s : Session} (hinv : Inv broker sends meets s) (hfuel : MAXRECV < fuel)
    (horderly : ∀ k m, sends[k]? = some m → Orderly broker (meets k) m) {piece : List Byte}
    (hstream : s.received ++ piece <+: streamOf SentPackage.bytes sends)
    (hroom : (pending SentPackage.bytes sends s.received).length + piece.length ≤ MAXRECV) :
    ∃ t, PackageStep broker sends meets fuel s piece t ∧ Inv broker sends meets t := by
  obtain ⟨responses, hserved⟩ := hinv.served
  by_cases hempty : piece = []
  · subst hempty
    have hreceived : s.received ++ [] = s.received := List.append_nil _
    refine ⟨⟨s.loop, s.received ++ [], s.rounds ++ []⟩, ⟨hstream, s.loop, [], rfl, rfl⟩, ?_⟩
    rw [List.append_nil, List.append_nil]
    exact hinv
  obtain ⟨buffer, hcopy, hholds⟩ := Reassembly.charcat_holds hinv.holds piece le_rfl hroom
  rw [List.take_length] at hholds
  obtain ⟨ms, left, hdrains, hstands⟩ := isReader.drains_piece
    (stands_arrived SentPackage.bytes sends s.received hinv.stream) hstream
  have hms := hdrains.length_le fun _ _ _ htakes => htakes.shorter
  have hheld := hholds.length_le
  have henough : ms.length < fuel := by omega
  have hindex : ∀ k m, ms[k]? = some m → Orderly broker (meets (s.rounds.length + k)) m := by
    intro k m hm
    rw [hserved.length_eq]
    exact horderly _ m (hstands.getElem?_done hm)
  obtain ⟨loop, rounds, later, hrounds, hleft, hbuf, hserved'⟩ := exists_rounds
    (s := { s.loop with tempBuf := buffer, offset := s.loop.offset + piece.length }) hdrains
    hinv.recvBuf hholds hindex henough
  obtain ⟨hdone, rfl⟩ := hstands.unique
  refine ⟨⟨loop, s.received ++ piece, s.rounds ++ rounds⟩, ⟨hstream, loop, rounds, ?_, rfl⟩,
    ⟨hstream, hleft, hbuf, responses ++ later, ?_⟩⟩
  · rw [recvFromManager, if_neg hempty, hcopy, ok_bind, hrounds]
  · dsimp only
    rw [← hdone]
    exact hserved.append hserved'

/-- A piece was served only if it fitted behind what the broker held. -/
theorem Step.room {s t : Session} {piece : List Byte} (hinv : Inv broker sends meets s)
    (hstep : PackageStep broker sends meets fuel s piece t) :
    (pending SentPackage.bytes sends s.received).length + piece.length ≤ MAXRECV := by
  obtain ⟨-, loop, rounds, hrecv, -⟩ := hstep
  have hheld := hinv.holds.length_le
  by_cases hempty : piece = []
  · rw [hempty, List.length_nil]
    exact hheld
  · rw [recvFromManager, if_neg hempty] at hrecv
    obtain ⟨buffer, hcopy, -⟩ := bind_eq_ok.mp hrecv
    have hcount : s.loop.offset = _ := hinv.holds.count
    have hsize : s.loop.tempBuf.length = MAXRECV := hinv.holds.size
    rw [charcat, Int.toNat_natCast, hcount] at hcopy
    have hbounds := copyLoop_bounds piece _ 0 _ _ buffer hcopy (List.length_pos_iff.mpr hempty)
    omega

theorem Inv.step {s t : Session} {piece : List Byte} (hinv : Inv broker sends meets s)
    (hfuel : MAXRECV < fuel)
    (horderly : ∀ k m, sends[k]? = some m → Orderly broker (meets k) m)
    (hstep : PackageStep broker sends meets fuel s piece t) : Inv broker sends meets t := by
  obtain ⟨t', ⟨-, loop', rounds', hrecv', rfl⟩, hinv'⟩ :=
    hinv.exists_piece hfuel horderly hstep.1 (hstep.room hinv)
  obtain ⟨-, loop, rounds, hrecv, rfl⟩ := hstep
  obtain ⟨rfl, rfl⟩ := Prod.mk.inj (Except.ok.inj (hrecv.symm.trans hrecv'))
  exact hinv'

/-- More packages may be sent to the broker at any time. -/
theorem Inv.append {s : Session} (hinv : Inv broker sends meets s) (more : List SentPackage) :
    Inv broker (sends ++ more) meets s := by
  obtain ⟨hdone, hheld⟩ := ((stands_arrived SentPackage.bytes sends s.received
    hinv.stream).append SentPackage.bytes_pos more).unique
  refine ⟨?_, hheld ▸ hinv.holds, hinv.recvBuf, hdone ▸ hinv.served⟩
  rw [streamOf_append]
  exact hinv.stream.trans (List.prefix_append ..)

/-- The rest of the stream can be served, one package after the other. -/
theorem Inv.exists_finish (todo : List SentPackage) {s : Session} {done : List SentPackage}
    {held : List Byte} (hinv : Inv broker sends meets s) (hfuel : MAXRECV < fuel)
    (horderly : ∀ k m, sends[k]? = some m → Orderly broker (meets k) m)
    (hsends : sends = done ++ todo)
    (hreceived : s.received = streamOf SentPackage.bytes done ++ held)
    (hheld : held <+: streamOf SentPackage.bytes todo)
    (hshort : ∀ m rest, todo = m :: rest → held.length < m.bytes.length) :
    ∃ pieces t, Run (PackageStep broker sends meets fuel) s pieces t ∧
      Inv broker sends meets t ∧ t.received = streamOf SentPackage.bytes sends := by
  induction todo generalizing s done held with
  | nil =>
    refine ⟨[], s, Run.nil s, hinv, ?_⟩
    rw [hreceived, List.prefix_nil.mp hheld, hsends, List.append_nil, List.append_nil]
  | cons m todo ih =>
    obtain ⟨-, hpending⟩ := Stands.unique ⟨m :: todo, hsends, hreceived, hheld, hshort⟩
    have hlt := hshort m todo rfl
    have hpart : held <+: m.bytes := by
      rcases prefix_cons_cases hheld with ⟨more, rfl, -⟩ | ⟨hpart, -⟩
      · rw [List.length_append] at hlt
        omega
      · exact hpart
    obtain ⟨piece, hpiece⟩ := hpart
    have hnext : s.received ++ piece = streamOf SentPackage.bytes (done ++ [m]) := by
      rw [hreceived, List.append_assoc, hpiece, streamOf_append, streamOf_cons, streamOf_nil,
        List.append_nil]
    have hsends' : sends = (done ++ [m]) ++ todo := by
      rw [hsends, List.append_assoc]
      rfl
    have hstream : s.received ++ piece <+: streamOf SentPackage.bytes sends := by
      rw [hnext, hsends', streamOf_append SentPackage.bytes (done ++ [m]) todo]
      exact List.prefix_append ..
    have hroom : (pending SentPackage.bytes sends s.received).length + piece.length ≤ MAXRECV := by
      rw [← hpending, ← List.length_append, hpiece]
      exact m.bytes_eq.2
    obtain ⟨t, hstep, ht⟩ := hinv.exists_piece hfuel horderly hstream hroom
    have hreceived' : t.received = streamOf SentPackage.bytes (done ++ [m]) ++ [] := by
      obtain ⟨-, loop, rounds, -, rfl⟩ := hstep
      rw [List.append_nil]
      exact hnext
    obtain ⟨pieces, u, hrun, hu, hall⟩ := ih ht hsends' hreceived' List.nil_prefix
      (fun m' _ _ => m'.bytes_pos)
    exact ⟨piece :: pieces, u, (Run.single hstep).append hrun, hu, hall⟩

/-- In every run of a broker in which what it sends to a device is a command and the answers are
short, exactly the packages that have arrived whole are served, once each and in order; what goes
to the manager are their responses. A piece can be served exactly if it fits behind the part of a
package that is held. -/
theorem broker_serves (hfuel : MAXRECV < fuel)
    (horderly : ∀ k m, sends[k]? = some m → Orderly broker (meets k) m)
    {pieces : List (List Byte)} {s : Session}
    (hrun : Run (PackageStep broker sends meets fuel) Session.init pieces s) :
    (∃ responses, Served broker meets (arrived SentPackage.bytes sends s.received.length) s.rounds
      responses ∧ s.rounds.filterMap Round.toManager = responses.map SentPackage.bytes) ∧
    ∀ piece, s.received ++ piece <+: streamOf SentPackage.bytes sends →
      ((∃ t, PackageStep broker sends meets fuel s piece t) ↔
        (pending SentPackage.bytes sends s.received).length + piece.length ≤ MAXRECV) := by
  have hinv : Inv broker sends meets s := hrun.invariant (Inv broker sends meets)
    (fun _ _ _ hs hstep => hs.step hfuel horderly hstep) (inv_init broker sends meets)
  obtain ⟨responses, hserved⟩ := hinv.served
  refine ⟨⟨responses, hserved, hserved.sent⟩, ?_⟩
  intro piece hstream
  constructor
  · rintro ⟨t, hstep⟩
    exact hstep.room hinv
  · intro hroom
    obtain ⟨t, hstep, -⟩ := hinv.exists_piece hfuel horderly hstream hroom
    exact ⟨t, hstep⟩

end

/-- A read request can be sent from any address to any other. -/
theorem exists_readRequest {source destination id : List Byte} (hsor : IsAddress source)
    (hdes : IsAddress destination) (hid : IsFieldText id) (hshort : id.length ≤ 9) :
    ∃ m : SentPackage, m.sorIp = source ∧ m.desIp = destination ∧
      Carries m .readRequest id (ascii "0") ∧ m.bytes.length ≤ 1000 := by
  have hlength : (cmdContent (cmdTexts (ascii "Req") id (ascii "0")) ++ [0]).length ≤ 50 := by
    have hreq : (ascii "Req").length = 3 := by decide
    have hzero : (ascii "0").length = 1 := by decide
    rw [List.length_append, List.length_singleton, cmdTexts_length, hreq, hzero]
    split <;> omega
  obtain ⟨m, hsource, hdestination, hdata⟩ := SentPackage.exists_of source destination _ hsor hdes
    (hlength.trans (by decide))
  refine ⟨m, hsource, hdestination, ⟨⟨ascii "Req", [], rfl, hdata⟩, hid, hshort,
    ⟨by decide, List.all_eq_true.mp (by decide)⟩, by decide⟩, ?_⟩
  have hheader := m.isCreated.header_length_le m.sor m.des
  have hwire := m.isCreated.wireBytes_length m.sor m.des
  rw [← m.bytes_eq.1] at hwire
  rw [← hdata] at hlength
  omega

/-- The device with the address of the package, which answers to each command. -/
def answering (m : SentPackage) (payload : List Byte) : Surroundings where
  devices := fun _ => some m.package.desIp
  connected := true
  status := []
  polls := [startCode :: payload ++ [endCode]]
  memory := blankMemory

theorem reaches_answering (broker : Broker) (m : SentPackage) (payload : List Byte) :
    Reaches broker (answering m payload) m.desIp :=
  ⟨(isSome_findDeviceIndexByIoTIp _ m).mp (Fin.isSome_find?_iff.mpr ⟨0, by simp [answering]⟩),
    .inr rfl⟩

theorem Says.eq_some {polls : List (List Byte)} {payload : List Byte} {said : Option (List Byte)}
    (h : Says polls said) (hpolls : polls.flatten = startCode :: payload ++ [endCode]) :
    said = some payload := by
  cases h with
  | nothing hno _ =>
    refine absurd ?_ hno
    rw [hpolls]
    exact List.mem_append_right _ List.mem_cons_self
  | text _ hother =>
    have hbody := List.append_cancel_right (hother.symm.trans hpolls)
    rw [(List.cons.inj hbody).2]

theorem orderly_answering {m : SentPackage} {id value payload : List Byte} {type : CommandType}
    (h : Carries m type id value) (hpayload : IsFieldText payload) (hlen : payload.length ≤ 9)
    (hshort : responseLength id payload < maxCmdBufSize) (broker : Broker) :
    Orderly broker (answering m payload) m where
  command _ := ⟨type, id, value, h⟩
  answer := ⟨some payload, .text hpayload (List.flatten_singleton)⟩
  room type' id' value' payload' hcarries hsaid := by
    obtain rfl := hcarries.id_eq h
    obtain rfl := Option.some.inj (hsaid.eq_some List.flatten_singleton)
    exact ⟨hlen, hshort⟩

/-- A command to which the device answers has one response. -/
theorem Served.exists_one {broker : Broker} {m : SentPackage} {payload : List Byte}
    {rounds : List Round} {responses : List SentPackage}
    (h : Served broker (fun _ => answering m payload) [m] rounds responses)
    (hnot : broker ≠ .xbeeApi) :
    ∃ response id, responses = [response] ∧ Responds m id payload response := by
  have hpolls : (answering m payload).polls.flatten = startCode :: payload ++ [endCode] :=
    List.flatten_singleton
  cases h with
  | @cons _ _ _ _ round _ _ hhandles _ hrest =>
    cases hrest
    generalize round.toDevice = toDevice at hhandles
    cases hhandles with
    | ignored hreaches => exact absurd (reaches_answering broker m payload) hreaches
    | told _ _ hexpects => exact absurd (fun hapi => absurd hapi hnot) hexpects
    | silent _ _ _ hsaid =>
      have hsome := hsaid.eq_some hpolls
      cases hsome
    | @answered _ id _ _ response _ _ _ hsaid hresponds =>
      obtain rfl := Option.some.inj (hsaid.eq_some hpolls)
      exact ⟨response, id, rfl, hresponds⟩

/-- A read request that arrives in one piece, and its response. -/
theorem broker_serves_one :
    ∃ (m response : SentPackage) (s : Session),
      Run (PackageStep .ble [m] (fun _ => answering m (ascii "21.5")) (MAXRECV + 1)) Session.init
        [m.bytes] s ∧
      s.rounds.filterMap Round.toManager = [response.bytes] ∧ response.desIp = ascii "A" := by
  have hid : IsFieldText (ascii "Temp") := ⟨by decide, List.all_eq_true.mp (by decide)⟩
  have hpayload : IsFieldText (ascii "21.5") := ⟨by decide, List.all_eq_true.mp (by decide)⟩
  obtain ⟨m, hsource, -, hcarries, -⟩ := exists_readRequest isAddress_A isAddress_B hid (by decide)
  have horderly : ∀ (k : ℕ) (p : SentPackage), [m][k]? = some p →
      Orderly .ble (answering m (ascii "21.5")) p := by
    intro k p hp
    obtain rfl := List.mem_singleton.mp (List.mem_of_getElem? hp)
    exact orderly_answering hcarries hpayload (by decide) (by decide) .ble
  have hmax : MAXRECV < MAXRECV + 1 := Nat.lt_succ_self _
  have hnone : (pending SentPackage.bytes [m] Session.init.received).length = 0 := by
    rw [show Session.init.received = [] from rfl, pending, List.drop_nil, List.length_nil]
  have hstream : Session.init.received ++ m.bytes <+: streamOf SentPackage.bytes [m] := by
    simp [Session.init]
  obtain ⟨s, hstep, -⟩ := (inv_init .ble [m] fun _ => answering m (ascii "21.5")).exists_piece hmax
    horderly hstream (by
      rw [hnone, Nat.zero_add]
      exact m.bytes_eq.2)
  have hrun := Run.single hstep
  obtain ⟨⟨responses, hserved, hsent⟩, -⟩ := broker_serves hmax horderly hrun
  obtain ⟨-, loop, rounds, -, rfl⟩ := hstep
  have harrived : arrived SentPackage.bytes [m] (Session.init.received ++ m.bytes).length =
      [m] := by
    simp [Session.init, arrived]
  dsimp only at hserved hsent
  rw [harrived] at hserved
  obtain ⟨response, id, rfl, hresponds⟩ := hserved.exists_one (fun hapi => Broker.noConfusion hapi)
  exact ⟨m, response, _, hrun, hsent, hresponds.destination.trans hsource⟩

end IoTRepublic.BrokerLoop
