import IoTRepublic.BrokerLoop
import IoTRepublic.ManagerDelivery

/-!
The manager and one of its brokers together, with clients whose packages go from
registered devices to registered devices, when and as they like. What the manager
sends over the socket of the broker arrives there in pieces, and what the broker sends
is handled by the manager when it has arrived whole. While the registered devices and
the connections stay, every command for a device of the broker reaches it once and in
order, and the answers come to the senders of the commands, each once and in the same
order, however the parties are interleaved.
-/
namespace IoTRepublic.RequestNetwork

open CheckedArray Package CreatedPackage CommandCodec Manager Registry Forwarding Framing Runs
  ManagerExchange ManagerDelivery BrokerLoop
open ReadRequest (Broker Round)
open Reassembly (SentPackage)

/-- A broker, what its rounds meet, and its connection to the manager. -/
structure Gateway where
  broker : Broker
  meets : ℕ → Surroundings
  fuel : ℕ
  slot : Slot
  connection : ℕ
  socket : IoTSocket

/-- The manager and the broker, the bytes that the manager has sent over the socket of the broker,
and those that it has taken from its connection. -/
structure Network where
  manager : Exchange
  downlink : List Byte
  broker : Session
  taken : List Byte

namespace Network

/-- All that the broker has sent to the manager. -/
def output (n : Network) : List Byte := (n.broker.rounds.filterMap Round.toManager).flatten

def start (x : Exchange) : Network := ⟨x, [], Session.init, []⟩

end Network

inductive Event
  | manager (act : Act)
  | piece (bytes : List Byte)

namespace Event

def sent : Event → List Sent
  | .manager act => act.sent
  | .piece _ => []

/-- The package that the manager handles. -/
def package : Event → Option SentPackage
  | .manager (.package _ _ m _) => some m
  | _ => none

/-- The package of the broker that the manager handles. -/
def fromBroker (g : Gateway) : Event → Option SentPackage
  | .manager act => act.packageOf g.connection
  | .piece _ => none

end Event

def bytesTo (socket : IoTSocket) (act : Act) : List Byte :=
  (act.sent.filter (·.socket = socket)).flatMap Sent.bytes

/-- An act of the manager, or a piece that the broker receives. A package of the broker is handled
when its bytes have been sent. -/
inductive Step (g : Gateway) : Network → Event → Network → Prop
  | other {n : Network} {act : Act} {x : Exchange} : Exchange.Step n.manager act x →
      act.packageOf g.connection = none →
        Step g n (.manager act) ⟨x, n.downlink ++ bytesTo g.socket act, n.broker, n.taken⟩
  | answer {n : Network} {act : Act} {m : SentPackage} {x : Exchange} :
      Exchange.Step n.manager act x → act.packageOf g.connection = some m →
        n.taken ++ m.bytes <+: n.output →
          Step g n (.manager act)
            ⟨x, n.downlink ++ bytesTo g.socket act, n.broker, n.taken ++ m.bytes⟩
  | piece {n : Network} {bytes : List Byte} {t : Session} :
      BrokerLoop.Step g.broker n.downlink g.meets g.fuel n.broker bytes t →
        Step g n (.piece bytes) { n with broker := t }

/-- The registered devices: the slot and the socket over which each address is reached. -/
structure Directory where
  find : List Byte → Option (Slot × IoTSocket)
  device : ∀ a i socket, find a = some (i, socket) → a ≠ ServerIP ∧ a ≠ ascii "0"

/-- What holds at the manager while the devices and the broker stay connected. -/
structure Settled (g : Gateway) (home : Directory) (x : Exchange) : Prop where
  homes : ∀ a i socket, home.find a = some (i, socket) → Home x i socket a
  owner : x.owner g.slot = some g.connection
  socket : x.clientSocket g.slot = g.socket
  inUse : g.socket ≠ 0

/-- The connections of the devices and of the broker stay, and the packages are between devices. -/
def Calm (g : Gateway) (home : Directory) : Event → Prop
  | .manager (.accept _) => True
  | .manager (.close j) => j ≠ g.slot ∧ ∀ a socket, home.find a ≠ some (j, socket)
  | .manager (.package _ _ m _) => (home.find m.sorIp).isSome ∧ (home.find m.desIp).isSome
  | .piece _ => True

/-- A package goes to the socket of its destination. -/
def delivery (home : Directory) (m : SentPackage) : Option Sent :=
  (home.find m.desIp).map fun place => ⟨place.2, m.bytes⟩

/-- The package for a device of the broker that the manager handles. -/
def toBroker (g : Gateway) (home : Directory) (e : Event) : Option SentPackage :=
  e.package.filter fun m => (home.find m.desIp).map Prod.snd = some g.socket

section

variable {g : Gateway} {home : Directory} {x y : Exchange} {act : Act}

/-- The slot of the broker keeps its connection. -/
theorem Settled.stays (h : Settled g home x) (hstep : Exchange.Step x act y)
    (hcalm : Calm g home (.manager act)) :
    y.owner g.slot = x.owner g.slot ∧ y.clientSocket g.slot = x.clientSocket g.slot := by
  cases hstep with
  | @accept newSocket j hpos hfree =>
    have hne : g.slot ≠ j := by
      rintro rfl
      exact h.inUse (h.socket.symm.trans (freeSlot_eq_some hfree))
    simp only [Function.update_of_ne hne, and_self]
  | forget => exact ⟨rfl, rfl⟩
  | close => simp only [Function.update_of_ne (Ne.symm hcalm.1), and_self]
  | package => exact ⟨rfl, rfl⟩

theorem Settled.step (h : Settled g home x) (hstep : Exchange.Step x act y)
    (hcalm : Calm g home (.manager act)) : Settled g home y := by
  obtain ⟨howner, hsocket⟩ := h.stays hstep hcalm
  refine ⟨fun a i socket ha => (h.homes a i socket ha).step hstep ?_, howner.trans h.owner,
    hsocket.trans h.socket, h.inUse⟩
  cases act with
  | accept => trivial
  | close j =>
    rintro rfl
    exact hcalm.2 a socket ha
  | package j c m sent =>
    obtain ⟨⟨i', socket'⟩, hdes⟩ := Option.isSome_iff_exists.mp hcalm.2
    exact (home.device m.desIp i' socket' hdes).1

/-- What the manager sends for an act goes to the destination of the package. -/
theorem Settled.sent (h : Settled g home x) (hstep : Exchange.Step x act y)
    (hcalm : Calm g home (.manager act)) :
    act.sent = (Event.package (.manager act)).toList.filterMap (delivery home) := by
  cases act with
  | accept => rfl
  | close => rfl
  | package j c m sent =>
    obtain ⟨⟨i, socket⟩, hdes⟩ := Option.isSome_iff_exists.mp hcalm.2
    have hsent := (h.homes _ i socket hdes).answer (home.device _ i socket hdes).1 hstep rfl
    have hdelivery : delivery home m = some ⟨socket, m.bytes⟩ := by
      rw [delivery, hdes]
      rfl
    rw [Event.package, Option.toList_some, List.filterMap_cons_some hdelivery, List.filterMap_nil]
    exact hsent

/-- Of what is sent, the packages for the devices of the broker go to it. -/
theorem Settled.bytesTo_eq (h : Settled g home x) (hstep : Exchange.Step x act y)
    (hcalm : Calm g home (.manager act)) :
    bytesTo g.socket act = streamOf SentPackage.bytes (toBroker g home (.manager act)).toList := by
  have hsent := h.sent hstep hcalm
  cases act with
  | accept => rfl
  | close => rfl
  | package j c m sent =>
    obtain ⟨⟨i, socket⟩, hdes⟩ := Option.isSome_iff_exists.mp hcalm.2
    have hdelivery : delivery home m = some ⟨socket, m.bytes⟩ := by
      rw [delivery, hdes]
      rfl
    rw [Event.package, Option.toList_some, List.filterMap_cons_some hdelivery,
      List.filterMap_nil] at hsent
    rw [bytesTo, hsent, toBroker, Event.package, Option.filter_some, hdes]
    by_cases hsocket : socket = g.socket <;> simp [hsocket, streamOf]

end

section

variable {g : Gateway} {home : Directory} {es : List Event} {n z : Network}

/-- Where the network stands after these events. -/
structure Inv (g : Gateway) (home : Directory) (es : List Event) (n : Network) : Prop where
  settled : Settled g home n.manager
  downlink : n.downlink = streamOf SentPackage.bytes (es.filterMap (toBroker g home))
  broker : BrokerLoop.Inv g.broker (es.filterMap (toBroker g home)) g.meets n.broker
  taken : n.taken = streamOf SentPackage.bytes (es.filterMap (Event.fromBroker g))
  output : n.taken <+: n.output
  sent : es.flatMap Event.sent = (es.filterMap Event.package).filterMap (delivery home)

theorem inv_start {x : Exchange} (h : Settled g home x) : Inv g home [] (Network.start x) :=
  ⟨h, rfl, BrokerLoop.inv_init g.broker [] g.meets, rfl, List.nil_prefix, rfl⟩

/-- An act of the manager, whatever it takes from the broker. -/
theorem Inv.manager (h : Inv g home es n) {act : Act} {x : Exchange}
    (hstep : Exchange.Step n.manager act x) (hcalm : Calm g home (.manager act)) {taken : List Byte}
    (htaken : taken = n.taken ++
      streamOf SentPackage.bytes (Event.fromBroker g (.manager act)).toList)
    (houtput : taken <+: n.output) : Inv g home (es ++ [.manager act])
      ⟨x, n.downlink ++ bytesTo g.socket act, n.broker, taken⟩ := by
  have hlist : ∀ f : Event → Option SentPackage,
      (es ++ [Event.manager act]).filterMap f = es.filterMap f ++ (f (.manager act)).toList := by
    intro f
    rw [List.filterMap_append]
    cases hf : f (.manager act) <;> simp [hf]
  refine ⟨h.settled.step hstep hcalm, ?_, ?_, ?_, houtput, ?_⟩
  · rw [hlist, streamOf_append, ← h.downlink, h.settled.bytesTo_eq hstep hcalm]
  · rw [hlist]
    exact h.broker.append _
  · rw [hlist, streamOf_append, ← h.taken, htaken]
  · rw [List.flatMap_append, List.flatMap_singleton, h.sent, hlist, List.filterMap_append]
    exact congrArg _ (h.settled.sent hstep hcalm)

/-- The broker sends only more. -/
theorem piece_prefix_stream {stream : List Byte} {bytes : List Byte} {t : Session}
    (hstep : BrokerLoop.Step g.broker stream g.meets g.fuel n.broker bytes t) :
    n.output <+: Network.output { n with broker := t } := by
  obtain ⟨-, loop, rounds, -, rfl⟩ := hstep
  simp only [Network.output, List.filterMap_append, List.flatten_append]
  exact List.prefix_append ..

theorem Inv.step (h : Inv g home es n) (hfuel : MAXRECV < g.fuel) {e : Event}
    (hstep : Step g n e z) (hcalm : Calm g home e)
    (horderly : ∀ k m, (es.filterMap (toBroker g home))[k]? = some m →
      Orderly g.broker (g.meets k) m) : Inv g home (es ++ [e]) z := by
  cases hstep with
  | other hact hnone =>
    refine h.manager hact hcalm ?_ h.output
    rw [Event.fromBroker, hnone, Option.toList_none, streamOf_nil, List.append_nil]
  | answer hact hsome houtput =>
    refine h.manager hact hcalm ?_ houtput
    rw [Event.fromBroker, hsome, Option.toList_some, streamOf_cons, streamOf_nil, List.append_nil]
  | @piece bytes t hpiece =>
    have hnone : ∀ f : Event → Option SentPackage, f (.piece bytes) = none →
        (es ++ [Event.piece bytes]).filterMap f = es.filterMap f := by
      intro f hf
      rw [List.filterMap_append, List.filterMap_cons_none hf, List.filterMap_nil, List.append_nil]
    refine ⟨h.settled, ?_, ?_, ?_, h.output.trans (piece_prefix_stream hpiece), ?_⟩
    · rw [hnone _ rfl]
      exact h.downlink
    · rw [hnone _ rfl]
      rw [h.downlink] at hpiece
      exact h.broker.step hfuel horderly hpiece
    · rw [hnone _ rfl]
      exact h.taken
    · rw [hnone _ rfl, List.flatMap_append, h.sent, List.flatMap_singleton]
      exact List.append_nil _

theorem inv_run {x : Exchange} (hfuel : MAXRECV < g.fuel) (hsettled : Settled g home x)
    (hrun : Run (Step g) (Network.start x) es n) (hcalm : ∀ e ∈ es, Calm g home e)
    (horderly : ∀ k m, (es.filterMap (toBroker g home))[k]? = some m →
      Orderly g.broker (g.meets k) m) : Inv g home es n := by
  induction hrun with
  | nil => exact inv_start hsettled
  | @snoc t u es e _ hlast ih =>
    rw [List.filterMap_append] at horderly
    have hbefore : ∀ k m, (es.filterMap (toBroker g home))[k]? = some m →
        Orderly g.broker (g.meets k) m := by
      intro k m hm
      apply horderly
      rw [List.getElem?_append_left (List.getElem?_eq_some_iff.mp hm).1]
      exact hm
    have hinv := ih (fun e' he' => hcalm e' (List.mem_append_left _ he')) hbefore
    exact hinv.step hfuel hlast (hcalm e (List.mem_append_right _ List.mem_cons_self)) hbefore

/-- What the manager has taken from the broker are the first of its responses. -/
theorem Inv.answers (h : Inv g home es n) {responses : List SentPackage}
    (hsent : n.broker.rounds.filterMap Round.toManager = responses.map SentPackage.bytes) :
    es.filterMap (Event.fromBroker g) <+: responses := by
  have hprefix := h.output
  rw [h.taken, Network.output, hsent, ← List.flatMap_def] at hprefix
  exact prefix_of_streamOf_prefix SentPackage.bytes_pos (fun _ _ => Reassembly.eq_of_prefix) hprefix

/-- Pieces that the broker can receive. -/
theorem run_pieces {pieces : List (List Byte)} {t : Session}
    (hrun : Run (BrokerLoop.Step g.broker n.downlink g.meets g.fuel) n.broker pieces t) :
    Run (Step g) n (pieces.map Event.piece) { n with broker := t } := by
  generalize hs : n.broker = s at hrun
  induction hrun with
  | nil =>
    subst hs
    exact Run.nil n
  | snoc _ hlast ih =>
    rw [List.map_append]
    exact ih.snoc (.piece hlast)

/-- The responses that the manager has not taken yet can be handled, one after the other. -/
theorem Inv.exists_taken (todo : List SentPackage) {done : List SentPackage}
    (hsettled : Settled g home n.manager)
    (houtput : n.output = streamOf SentPackage.bytes (done ++ todo))
    (htaken : n.taken = streamOf SentPackage.bytes done)
    (hplace : ∀ r ∈ todo, (home.find r.sorIp).isSome ∧ r.bytes.length ≤ MAXPACKETSIZE ∧
      ∃ i socket, home.find r.desIp = some (i, socket) ∧ socket ≠ g.socket) :
    ∃ later z, Run (Step g) n later z ∧ (∀ e ∈ later, Calm g home e) ∧
      later.filterMap (toBroker g home) = [] ∧ later.filterMap (Event.fromBroker g) = todo ∧
      z.broker = n.broker := by
  induction todo generalizing n done with
  | nil => exact ⟨[], n, Run.nil n, fun e he => absurd he List.not_mem_nil, rfl, rfl, rfl⟩
  | cons r todo ih =>
    obtain ⟨hsor, hfits, i, socket, hdes, hother⟩ := hplace r List.mem_cons_self
    obtain ⟨hserver, hzero⟩ := home.device r.desIp i socket hdes
    have hact : Exchange.Step n.manager
        (.package g.slot g.connection r [⟨socket, r.bytes⟩]) n.manager :=
      (hsettled.homes r.desIp i socket hdes).exists_step hserver hsettled.owner rfl
        (fun hrequest => hzero hrequest.1) hfits
    have hpackage : Act.packageOf g.connection
        (.package g.slot g.connection r [⟨socket, r.bytes⟩]) = some r := if_pos rfl
    have hnext : n.taken ++ r.bytes = streamOf SentPackage.bytes (done ++ [r]) := by
      rw [htaken, streamOf_append, streamOf_cons, streamOf_nil, List.append_nil]
    rw [List.append_cons done r todo] at houtput
    have hprefix : n.taken ++ r.bytes <+: n.output := by
      rw [hnext, houtput, streamOf_append SentPackage.bytes (done ++ [r]) todo]
      exact List.prefix_append ..
    have hstep := Step.answer (g := g) hact hpackage hprefix
    obtain ⟨later, z, hrun, hcalm, hquiet, htodo, hbroker⟩ := ih
      (n := ⟨n.manager, n.downlink ++ bytesTo g.socket _, n.broker, n.taken ++ r.bytes⟩) hsettled
      houtput hnext fun r' hr' => hplace r' (List.mem_cons_of_mem _ hr')
    refine ⟨_, z, (Run.single hstep).append hrun, ?_, ?_, ?_, hbroker⟩
    · intro e he
      rcases List.mem_append.mp he with hfirst | hlater
      · obtain rfl := List.mem_singleton.mp hfirst
        exact ⟨hsor, Option.isSome_iff_exists.mpr ⟨_, hdes⟩⟩
      · exact hcalm e hlater
    · have hnone : toBroker g home
          (.manager (.package g.slot g.connection r [⟨socket, r.bytes⟩])) = none := by
        rw [toBroker, Event.package, Option.filter_some, hdes]
        exact if_neg (by simpa using hother)
      rw [List.filterMap_append, hquiet, List.filterMap_cons_none hnone]
      rfl
    · have hsome : Event.fromBroker g
          (.manager (.package g.slot g.connection r [⟨socket, r.bytes⟩])) = some r := hpackage
      rw [List.filterMap_append, htodo, List.filterMap_cons_some hsome]
      rfl

theorem filterMap_pieces (f : Event → Option SentPackage) (hf : ∀ bytes, f (.piece bytes) = none)
    (pieces : List (List Byte)) : (pieces.map Event.piece).filterMap f = [] := by
  rw [List.filterMap_map, List.filterMap_eq_nil_iff]
  exact fun bytes _ => hf bytes

/-- From every state the commands on their way can be served, and the answers handed on. -/
theorem exists_answered {x : Exchange} (hfuel : MAXRECV < g.fuel)
    (hsettled : Settled g home x) (hrun : Run (Step g) (Network.start x) es n)
    (hcalm : ∀ e ∈ es, Calm g home e)
    (horderly : ∀ k m, (es.filterMap (toBroker g home))[k]? = some m →
      Orderly g.broker (g.meets k) m)
    (hplace : ∀ m ∈ es.filterMap (toBroker g home), (home.find m.desIp).isSome ∧
      ∃ i socket, home.find m.sorIp = some (i, socket) ∧ socket ≠ g.socket) :
    ∃ later z responses, Run (Step g) n later z ∧ (∀ e ∈ later, Calm g home e) ∧
      later.filterMap (toBroker g home) = [] ∧
      Served g.broker g.meets (es.filterMap (toBroker g home)) z.broker.rounds responses ∧
      (es ++ later).filterMap (Event.fromBroker g) = responses := by
  have hinv := inv_run hfuel hsettled hrun hcalm horderly
  obtain ⟨todo, hsends, hreceived, hheld, hshort⟩ := stands_arrived SentPackage.bytes _
    n.broker.received hinv.broker.stream
  obtain ⟨pieces, t, hpieces, ht, hall⟩ := hinv.broker.exists_finish todo hfuel horderly hsends
    hreceived hheld hshort
  rw [PackageStep, ← hinv.downlink] at hpieces
  have hto := filterMap_pieces (toBroker g home) (fun _ => rfl) pieces
  have hfrom := filterMap_pieces (Event.fromBroker g) (fun _ => rfl) pieces
  have hrun' := hrun.append (run_pieces hpieces)
  have hcalm' : ∀ e ∈ es ++ pieces.map Event.piece, Calm g home e := by
    intro e he
    rcases List.mem_append.mp he with hin | hin
    · exact hcalm e hin
    · obtain ⟨bytes, -, rfl⟩ := List.mem_map.mp hin
      trivial
  have hinv' := inv_run hfuel hsettled hrun' hcalm' (by
    rw [List.filterMap_append, hto, List.append_nil]
    exact horderly)
  obtain ⟨responses, hserved⟩ := ht.served
  obtain ⟨hwhole, -⟩ := Stands.unique ⟨[], (List.append_nil _).symm,
    hall.trans (List.append_nil _).symm, List.nil_prefix, fun _ _ hnil => absurd hnil (by simp)⟩
  rw [← hwhole] at hserved
  obtain ⟨left, hleft⟩ := hinv'.answers hserved.sent
  rw [List.filterMap_append, hfrom, List.append_nil] at hleft
  have houtput : Network.output { n with broker := t } =
      streamOf SentPackage.bytes (es.filterMap (Event.fromBroker g) ++ left) := by
    rw [hleft, Network.output, hserved.sent, ← List.flatMap_def]
    rfl
  obtain ⟨later, z, hlater, hcalm'', hquiet, hanswers, hbroker⟩ :=
    Inv.exists_taken left hinv'.settled houtput hinv.taken (by
      intro r hr
      obtain ⟨m, hm, id, payload, hresponds⟩ := hserved.exists_request
        (hleft ▸ List.mem_append_right _ hr)
      obtain ⟨hdes, i, socket, hsor, hother⟩ := hplace m hm
      have hfits := hresponds.fits
      have hmax : MAXPACKETSIZE = 1024 := rfl
      exact ⟨hresponds.source ▸ hdes, by omega, i, socket, hresponds.destination ▸ hsor, hother⟩)
  refine ⟨pieces.map Event.piece ++ later, z, responses, (run_pieces hpieces).append hlater, ?_, ?_,
    ?_, ?_⟩
  · intro e he
    rcases List.mem_append.mp he with hin | hin
    · exact hcalm' e (List.mem_append_right _ hin)
    · exact hcalm'' e hin
  · rw [List.filterMap_append, hto, hquiet]
    rfl
  · rw [hbroker]
    exact hserved
  · rw [List.filterMap_append, List.filterMap_append, hfrom, hanswers, List.nil_append]
    exact hleft

/-- In every run of the manager and a broker in which the devices and the broker stay connected:
the broker serves the commands for its devices that have arrived whole, once each and in order;
what the manager has taken from it are the first of the responses; and all that the manager has
sent are the packages it has handled, each to the socket of its destination. If no command comes
from a device of the same broker, the run can go on until every command has been served and
every response handed on. -/
theorem requests_are_answered {x : Exchange} (hfuel : MAXRECV < g.fuel)
    (hsettled : Settled g home x) (hrun : Run (Step g) (Network.start x) es n)
    (hcalm : ∀ e ∈ es, Calm g home e)
    (horderly : ∀ k m, (es.filterMap (toBroker g home))[k]? = some m →
      Orderly g.broker (g.meets k) m) :
    (∃ responses, Served g.broker g.meets (arrived SentPackage.bytes
        (es.filterMap (toBroker g home)) n.broker.received.length) n.broker.rounds responses ∧
      es.filterMap (Event.fromBroker g) <+: responses) ∧
    es.flatMap Event.sent = (es.filterMap Event.package).filterMap (delivery home) ∧
    ((∀ m ∈ es.filterMap (toBroker g home), ∃ i socket, home.find m.sorIp = some (i, socket) ∧
        socket ≠ g.socket) →
      ∃ later z responses, Run (Step g) n later z ∧ (∀ e ∈ later, Calm g home e) ∧
        later.filterMap (toBroker g home) = [] ∧
        Served g.broker g.meets (es.filterMap (toBroker g home)) z.broker.rounds responses ∧
        (es ++ later).filterMap (Event.fromBroker g) = responses) := by
  have hinv := inv_run hfuel hsettled hrun hcalm horderly
  obtain ⟨responses, hserved⟩ := hinv.broker.served
  refine ⟨⟨responses, hserved, hinv.answers hserved.sent⟩, hinv.sent, ?_⟩
  intro hother
  refine exists_answered hfuel hsettled hrun hcalm horderly ?_
  intro m hm
  refine ⟨?_, hother m hm⟩
  obtain ⟨e, -, he⟩ := List.mem_filterMap.mp hm
  obtain ⟨-, hsocket⟩ := Option.filter_eq_some_iff.mp he
  cases hdes : home.find m.desIp with
  | none => simp [hdes] at hsocket
  | some place => rfl

end

/-- A device of the broker and a client of its own. -/
theorem exists_settled :
    ∃ (home : Directory) (x : Exchange), home.find (ascii "B") = some (0, 4) ∧
      home.find (ascii "A") = some (1, 5) ∧ x.owner 1 = some 1 ∧
      ∀ broker meets fuel, Settled ⟨broker, meets, fuel, 0, 0, 4⟩ home x := by
  let client : IoTDeviceInfo :=
    { deviceB with ip := ⟨ascii "A" ++ List.replicate 14 0, by decide⟩, socketIndex := 1 }
  let devices : Devices := Function.update onlyB 1 (some client)
  have hentry : ∀ j d, devices j = some d → j = 1 ∧ d = client ∨ j = 0 ∧ d = deviceB := by
    intro j d hd
    by_cases hone : j = 1
    · subst hone
      rw [show devices 1 = some client from Function.update_self ..] at hd
      exact .inl ⟨rfl, (Option.some.inj hd).symm⟩
    by_cases hzero : j = 0
    · subst hzero
      rw [show devices 0 = onlyB 0 from Function.update_of_ne hone .., onlyB,
        Function.update_self] at hd
      exact .inr ⟨rfl, (Option.some.inj hd).symm⟩
    · rw [show devices j = onlyB j from Function.update_of_ne hone .., onlyB,
        Function.update_of_ne hzero] at hd
      exact absurd hd (Option.some_ne_none d).symm
  have hclient : client.ip.text = .ok (ascii "A") := by decide
  have hdevice : deviceB.ip.text = .ok (ascii "B") := by decide
  have hfirst : findDeviceWithIp devices (ascii "B") = some deviceB := by
    rw [findDeviceWithIp_eq]
    refine SlotTable.find_of_unique (i := 0) rfl hdevice ?_
    intro j e he htext
    rcases hentry j e he with ⟨-, rfl⟩ | ⟨rfl, -⟩
    · exact absurd (Except.ok.inj (hclient.symm.trans htext)) (by decide)
    · rfl
  have hsecond : findDeviceWithIp devices (ascii "A") = some client := by
    rw [findDeviceWithIp_eq]
    refine SlotTable.find_of_unique (i := 1) (Function.update_self ..) hclient ?_
    intro j e he htext
    rcases hentry j e he with ⟨rfl, -⟩ | ⟨-, rfl⟩
    · rfl
    · exact absurd (Except.ok.inj (hdevice.symm.trans htext)) (by decide)
  let find : List Byte → Option (Slot × IoTSocket) := fun a =>
    if a = ascii "B" then some (0, 4) else if a = ascii "A" then some (1, 5) else none
  have hfind : ∀ a i socket, find a = some (i, socket) →
      a = ascii "B" ∧ i = 0 ∧ socket = 4 ∨ a = ascii "A" ∧ i = 1 ∧ socket = 5 := by
    intro a i socket ha
    dsimp only [find] at ha
    split at ha
    · rename_i hb
      obtain ⟨rfl, rfl⟩ := Prod.mk.inj (Option.some.inj ha)
      exact .inl ⟨hb, rfl, rfl⟩
    split at ha
    · rename_i hb
      obtain ⟨rfl, rfl⟩ := Prod.mk.inj (Option.some.inj ha)
      exact .inr ⟨hb, rfl, rfl⟩
    · cases ha
  refine ⟨⟨find, ?_⟩, ⟨fun i => if i = 0 then 4 else if i = 1 then 5 else 0,
    fun i => if i = 0 then some 0 else if i = 1 then some 1 else none, 2, ⟨devices, 0⟩⟩, rfl, ?_,
    rfl, fun broker meets fuel => ⟨?_, rfl, rfl, Nat.succ_ne_zero 3⟩⟩
  · intro a i socket ha
    rcases hfind a i socket ha with ⟨rfl, -, -⟩ | ⟨rfl, -, -⟩ <;> decide
  · rfl
  · intro a i socket ha
    rcases hfind a i socket ha with ⟨rfl, rfl, rfl⟩ | ⟨rfl, rfl, rfl⟩
    · exact ⟨⟨deviceB, hfirst, rfl⟩, rfl, by decide⟩
    · exact ⟨⟨client, hsecond, rfl⟩, rfl, by decide⟩

/-- A client asks the device behind the broker, and its answer is handed on to the client. -/
theorem requests_are_answered_one :
    ∃ (g : Gateway) (x : Exchange) (response : SentPackage) (es : List Event) (z : Network),
      Run (Step g) (Network.start x) es z ∧ es.filterMap (Event.fromBroker g) = [response] ∧
      response.sorIp = ascii "B" ∧ response.desIp = ascii "A" := by
  obtain ⟨home, x, hdevice, hclient, howner, hsettled⟩ := exists_settled
  have hid : IsFieldText (ascii "Temp") := ⟨by decide, List.all_eq_true.mp (by decide)⟩
  have hpayload : IsFieldText (ascii "21.5") := ⟨by decide, List.all_eq_true.mp (by decide)⟩
  obtain ⟨m, hsource, hdestination, hcarries, hfits⟩ := exists_readRequest isAddress_A isAddress_B
    hid (by decide)
  obtain ⟨g, hg⟩ : ∃ g : Gateway,
      g = ⟨.ble, fun _ => answering m (ascii "21.5"), MAXRECV + 1, 0, 0, 4⟩ := ⟨_, rfl⟩
  have hfuel : MAXRECV < g.fuel := hg ▸ Nat.lt_succ_self MAXRECV
  have hsocket : g.socket = 4 := hg ▸ rfl
  have hsettled' : Settled g home x := hg ▸ hsettled _ _ _
  have hact : Exchange.Step x (.package 1 1 m [⟨4, m.bytes⟩]) x :=
    (hsettled'.homes _ 0 4 hdevice).exists_step (by decide) howner hdestination
      (fun hrequest => absurd (hdestination.symm.trans hrequest.1) (by decide))
      (hfits.trans (by decide))
  have hother : Act.packageOf g.connection (.package 1 1 m [⟨4, m.bytes⟩]) = none := by
    rw [hg]
    rfl
  have hto : toBroker g home (.manager (.package 1 1 m [⟨4, m.bytes⟩])) = some m := by
    rw [toBroker, Event.package, Option.filter_some, hdestination, hdevice, hg]
    rfl
  have hlist : [Event.manager (.package 1 1 m [⟨4, m.bytes⟩])].filterMap (toBroker g home) =
      [m] := by
    rw [List.filterMap_cons_some hto, List.filterMap_nil]
  have hrun := Run.single (Step.other (n := Network.start x) hact hother)
  obtain ⟨-, -, hanswered⟩ := requests_are_answered hfuel hsettled' hrun
    (by
      intro e he
      obtain rfl := List.mem_singleton.mp he
      exact ⟨by rw [hsource, hclient]; rfl, by rw [hdestination, hdevice]; rfl⟩)
    (by
      intro k p hp
      rw [hlist] at hp
      obtain rfl := List.mem_singleton.mp (List.mem_of_getElem? hp)
      rw [hg]
      exact orderly_answering hcarries hpayload (by decide) (by decide) .ble)
  rw [hlist] at hanswered
  obtain ⟨later, z, responses, hlater, -, -, hserved, hall⟩ := hanswered (by
    intro p hp
    obtain rfl := List.mem_singleton.mp hp
    rw [hsource, hsocket]
    exact ⟨1, 5, hclient, by decide⟩)
  have hserved' : Served .ble (fun _ => answering m (ascii "21.5")) [m] z.broker.rounds
      responses := by
    rw [hg] at hserved
    exact hserved
  obtain ⟨response, id, rfl, hresponds⟩ := hserved'.exists_one (fun hapi => Broker.noConfusion hapi)
  exact ⟨g, x, response, _, z, hrun.append hlater, hall, hresponds.source.trans hdestination,
    hresponds.destination.trans hsource⟩

end IoTRepublic.RequestNetwork
