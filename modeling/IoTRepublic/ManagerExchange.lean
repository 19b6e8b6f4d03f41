import IoTRepublic.ManagerAnswers
import IoTRepublic.UnreachableNotice

/-!
The whole manager. Bytes come in pieces and in any order over the connections, the
packages that they complete are handled one after the other, and what the handlers
send goes out. Seen from outside it is a machine without bytes: connections come and
go, and each package that has arrived whole is handled once, in the order of its
connection. How the bytes were cut decides nothing but when a package is handled.
A step is one that leaves no array; the handling of a request for an address always
leaves its suffix, so no run has one.
-/
namespace IoTRepublic.ManagerExchange

open CheckedArray Package CreatedPackage Manager Registry Forwarding Management Framing Runs
  Reassembly ManagerAnswers

/-- The packages of one round are handled in order; `memory` holds the automatic objects of the
calls. -/
def handlePackages (clientSocket : Slot → IoTSocket) :
    (ℕ → HandlerLocals) → RegistryState → List IoTPackage → Exec (RegistryState × List Sent)
  | _, registry, [] => .ok (registry, [])
  | memory, registry, p :: ps => do
    let (registry, sent) ← handlePackage clientSocket (memory 0) registry p
    let (registry, later) ← handlePackages clientSocket (fun k => memory (k + 1)) registry ps
    .ok (registry, sent ++ later)

structure Round where
  server : ServerState
  calls : List IoTPackage
  registry : RegistryState
  sent : List Sent

/-- One event of the main loop, the handlers included. -/
def serveRound (fuel : ℕ) (memory : ℕ → HandlerLocals) (server : ServerState)
    (registry : RegistryState) (e : Event) : Exec Round := do
  let (server, calls) ← mainServerLoop fuel server e
  let (registry, sent) ← handlePackages server.clientSocket memory registry calls
  .ok ⟨server, calls, registry, sent⟩

/-- The manager with the books of its connections, its registry and all that it has sent. -/
structure System where
  session : Session
  registry : RegistryState
  sent : List Sent

namespace System

def init : System := ⟨Session.init, ⟨noDevices, 0⟩, []⟩

def Step (sends : ℕ → List SentPackage) (fuel : ℕ) (s : System)
    (e : Event × (ℕ → HandlerLocals)) (t : System) : Prop :=
  s.session.Allowed sends e.1 ∧ ∃ round,
    serveRound fuel e.2 s.session.server s.registry e.1 = .ok round ∧
    t = ⟨s.session.record round.server round.calls e.1, round.registry, s.sent ++ round.sent⟩

end System

/-- The sockets that were accepted, in order. -/
def acceptsOf (es : List (Event × (ℕ → HandlerLocals))) : List IoTSocket :=
  es.filterMap fun
    | (.accept newSocket, _) => some newSocket
    | _ => none

/-- The manager without bytes: who is connected over which socket, and the registry. -/
structure Exchange where
  clientSocket : Slot → IoTSocket
  owner : Slot → Option ℕ
  accepted : ℕ
  registry : RegistryState

/-- What happens at the manager; a package of a connection is handled and answered. -/
inductive Act
  | accept (newSocket : IoTSocket)
  | close (i : Slot)
  | package (i : Slot) (c : ℕ) (m : SentPackage) (sent : List Sent)

namespace Act

def sent : Act → List Sent
  | .package _ _ _ sent => sent
  | _ => []

/-- The package of this connection that is handled. -/
def packageOf (c : ℕ) : Act → Option SentPackage
  | .package _ c' m _ => if c' = c then some m else none
  | _ => none

def accepts : Act → Option IoTSocket
  | .accept newSocket => some newSocket
  | _ => none

theorem exists_of_packageOf {acts : List Act} {c : ℕ} {m : SentPackage}
    (h : m ∈ acts.filterMap (packageOf c)) : ∃ i sent, package i c m sent ∈ acts := by
  obtain ⟨act, hact, hpackage⟩ := List.mem_filterMap.mp h
  cases act with
  | package i c' m' sent =>
    rw [packageOf] at hpackage
    split at hpackage
    · rename_i hc
      obtain rfl := Option.some.inj hpackage
      exact ⟨i, sent, hc ▸ hact⟩
    · cases hpackage
  | _ => cases hpackage

end Act

namespace Exchange

def init : Exchange := ⟨fun _ => 0, fun _ => none, 0, ⟨noDevices, 0⟩⟩

inductive Step : Exchange → Act → Exchange → Prop
  | accept {x : Exchange} {newSocket : IoTSocket} {i : Slot} : newSocket ≠ 0 →
      freeSlot x.clientSocket = some i →
        Step x (.accept newSocket)
          { x with
            clientSocket := Function.update x.clientSocket i newSocket
            owner := Function.update x.owner i (some x.accepted)
            accepted := x.accepted + 1 }
  | forget {x : Exchange} {newSocket : IoTSocket} : newSocket ≠ 0 →
      freeSlot x.clientSocket = none →
        Step x (.accept newSocket) { x with accepted := x.accepted + 1 }
  | close {x : Exchange} {i : Slot} {c : ℕ} : x.owner i = some c →
      Step x (.close i)
        { x with
          clientSocket := Function.update x.clientSocket i 0
          owner := Function.update x.owner i none }
  | package {x : Exchange} {i : Slot} {c : ℕ} {m : SentPackage} {locals : HandlerLocals}
      {registry : RegistryState} {sent : List Sent} : x.owner i = some c →
      handlePackage x.clientSocket locals x.registry (m.handedOn i) = .ok (registry, sent) →
        Step x (.package i c m sent) { x with registry := registry }

end Exchange

/-- What is seen of the manager from outside. -/
def System.exchange (s : System) : Exchange :=
  ⟨s.session.server.clientSocket, s.session.owner, s.session.accepted, s.registry⟩

/-- The acts tell what was sent, what was accepted and which packages were handled. -/
structure Tells (acts : List Act) (sent : List Sent) (accepts : List IoTSocket)
    (packages : ℕ → List SentPackage) : Prop where
  sent : acts.flatMap Act.sent = sent
  accepts : acts.filterMap Act.accepts = accepts
  packages : ∀ c, acts.filterMap (Act.packageOf c) = packages c

theorem Tells.append {acts acts' : List Act} {sent sent' : List Sent}
    {accepts accepts' : List IoTSocket} {packages packages' : ℕ → List SentPackage}
    (h : Tells acts sent accepts packages) (h' : Tells acts' sent' accepts' packages') :
    Tells (acts ++ acts') (sent ++ sent') (accepts ++ accepts')
      (fun c => packages c ++ packages' c) where
  sent := by rw [List.flatMap_append, h.sent, h'.sent]
  accepts := by rw [List.filterMap_append, h.accepts, h'.accepts]
  packages c := by rw [List.filterMap_append, h.packages, h'.packages]

theorem tells_package (i : Slot) (c : ℕ) (m : SentPackage) (sent : List Sent) :
    Tells [.package i c m sent] sent [] (fun c' => if c = c' then [m] else []) := by
  refine ⟨List.append_nil _, rfl, ?_⟩
  intro c'
  by_cases hc : c = c' <;> simp [Act.packageOf, hc]

/-- The packages of a round, one act each. -/
theorem exists_acts {x : Exchange} {i : Slot} {c : ℕ} (howner : x.owner i = some c)
    {memory : ℕ → HandlerLocals} {registry registry' : RegistryState} {sent : List Sent}
    {ms : List SentPackage} (h : handlePackages x.clientSocket memory registry
      (ms.map (SentPackage.handedOn i)) = .ok (registry', sent)) :
    ∃ acts, Run Exchange.Step { x with registry := registry } acts
        { x with registry := registry' } ∧
      Tells acts sent [] (fun c' => if c = c' then ms else []) ∧
      ∀ a ∈ acts, ∃ m sent, a = .package i c m sent := by
  induction ms generalizing memory registry sent with
  | nil =>
    obtain ⟨rfl, rfl⟩ := Prod.mk.inj (Except.ok.inj h)
    exact ⟨[], Run.nil _, ⟨rfl, rfl, fun c' => by simp⟩, fun a ha => absurd ha List.not_mem_nil⟩
  | cons m ms ih =>
    obtain ⟨⟨between, sent₁⟩, hfirst, h⟩ := bind_eq_ok.mp h
    obtain ⟨⟨after, sent₂⟩, hrest, h⟩ := bind_eq_ok.mp h
    obtain ⟨rfl, rfl⟩ := Prod.mk.inj (Except.ok.inj h)
    obtain ⟨acts, hrun, htells, honly⟩ := ih hrest
    have hstep : Exchange.Step { x with registry := registry } (.package i c m sent₁)
        { x with registry := between } := .package howner hfirst
    refine ⟨.package i c m sent₁ :: acts, (Run.single hstep).append hrun, ?_, ?_⟩
    · obtain ⟨hsent, haccepts, hpackages⟩ := (tells_package i c m sent₁).append htells
      refine ⟨hsent, haccepts, fun c' => ?_⟩
      rw [show Act.package i c m sent₁ :: acts = [.package i c m sent₁] ++ acts from rfl,
        hpackages c']
      by_cases hc : c = c' <;> simp [hc]
    · intro a ha
      rcases List.mem_cons.mp ha with rfl | ha
      · exact ⟨m, sent₁, rfl⟩
      · exact honly a ha

/-- The acts that a run of the manager comes to. -/
structure System.Inv (sends : ℕ → List SentPackage) (es : List (Event × (ℕ → HandlerLocals)))
    (acts : List Act) (s : System) : Prop where
  session : s.session.Inv sends
  run : Run Exchange.Step Exchange.init acts s.exchange
  tells : Tells acts s.sent (acceptsOf es)
    (fun c => arrived SentPackage.bytes (sends c) (s.session.received c).length)
  slot : ∀ i c m sent, Act.package i c m sent ∈ acts → s.session.slotOf c = some i

section

variable {sends : ℕ → List SentPackage} {es : List (Event × (ℕ → HandlerLocals))}
  {acts : List Act} {s : System} {memory : ℕ → HandlerLocals} {fuel : ℕ}

theorem System.Inv.accept (h : System.Inv sends es acts s) {newSocket : IoTSocket}
    (hpos : newSocket ≠ 0) :
    System.Inv sends (es ++ [(.accept newSocket, memory)]) (acts ++ [.accept newSocket])
      ⟨s.session.record (acceptClient s.session.server newSocket) [] (.accept newSocket),
        s.registry, s.sent⟩ := by
  have hsession := h.session.accept hpos []
  have hone : Tells [.accept newSocket] [] [newSocket] (fun _ => []) :=
    ⟨rfl, rfl, fun _ => rfl⟩
  have htells := h.tells.append hone
  simp only [List.append_nil] at htells
  have haccepts : acceptsOf (es ++ [(.accept newSocket, memory)]) = acceptsOf es ++ [newSocket] := by
    rw [acceptsOf, List.filterMap_append]
    rfl
  rw [← haccepts] at htells
  have hkeep : ∀ i c m sent, Act.package i c m sent ∈ acts ++ [.accept newSocket] →
      s.session.slotOf c = some i := by
    intro i c m sent hmem
    rcases List.mem_append.mp hmem with hmem | hmem
    · exact h.slot i c m sent hmem
    · cases List.mem_singleton.mp hmem
  cases hfree : freeSlot s.session.server.clientSocket with
  | none =>
    simp only [Session.record, hfree, acceptClient] at hsession ⊢
    exact ⟨hsession, h.run.snoc (.forget hpos hfree), htells, hkeep⟩
  | some i =>
    simp only [Session.record, hfree, acceptClient] at hsession ⊢
    refine ⟨hsession, h.run.snoc (.accept hpos hfree), htells, ?_⟩
    intro j c m sent hmem
    have hslot := hkeep j c m sent hmem
    have hc : c ≠ s.session.accepted := by
      intro hc
      rw [hc, h.session.fresh _ le_rfl] at hslot
      cases hslot
    simp only [Function.update_of_ne hc]
    exact hslot

theorem System.Inv.close (h : System.Inv sends es acts s) {i : Slot} {c : ℕ}
    (howner : s.session.owner i = some c) :
    System.Inv sends (es ++ [(.readable i [], memory)]) (acts ++ [.close i])
      ⟨s.session.record (closeClient s.session.server i) [] (.readable i []),
        s.registry, s.sent⟩ := by
  have hsession := h.session.close howner
  have hone : Tells [.close i] [] [] (fun _ => []) := ⟨rfl, rfl, fun _ => rfl⟩
  have htells := h.tells.append hone
  simp only [List.append_nil] at htells
  have haccepts : acceptsOf (es ++ [(.readable i [], memory)]) = acceptsOf es := by
    rw [acceptsOf, List.filterMap_append]
    exact List.append_nil _
  rw [← haccepts] at htells
  simp only [Session.record, howner, closeClient, ↓reduceIte, List.append_nil, List.map_nil,
    Function.update_eq_self] at hsession ⊢
  refine ⟨hsession, h.run.snoc (.close howner), htells, ?_⟩
  intro j c' m sent hmem
  rcases List.mem_append.mp hmem with hmem | hmem
  · exact h.slot j c' m sent hmem
  · cases List.mem_singleton.mp hmem

/-- A piece and the acts for the packages that it completes. -/
theorem System.Inv.handled (h : System.Inv sends es acts s) (hfuel : MAXRECV < fuel) {i : Slot}
    {c : ℕ} {received : List Byte} (howner : s.session.owner i = some c) (hne : received ≠ [])
    (hallowed : s.session.Allowed sends (.readable i received)) {b : PackageBuffer}
    {ms : List SentPackage} (hpiece : mainServerLoop fuel s.session.server (.readable i received) =
      .ok ({ s.session.server with
        packageBuffer := Function.update s.session.server.packageBuffer i (some b) },
        ms.map (SentPackage.handedOn i)))
    (harrived : arrived SentPackage.bytes (sends c) (s.session.received c ++ received).length =
      arrived SentPackage.bytes (sends c) (s.session.received c).length ++ ms)
    {registry : RegistryState} {sent : List Sent} {acts' : List Act}
    (hrun : Run Exchange.Step s.exchange acts' { s.exchange with registry := registry })
    (hacts : Tells acts' sent [] (fun c' => if c = c' then ms else []))
    (honly : ∀ a ∈ acts', ∃ m sent, a = .package i c m sent) :
    System.Inv sends (es ++ [(.readable i received, memory)]) (acts ++ acts')
      ⟨s.session.record { s.session.server with
          packageBuffer := Function.update s.session.server.packageBuffer i (some b) }
        (ms.map (SentPackage.handedOn i)) (.readable i received), registry, s.sent ++ sent⟩ := by
  have hsession := h.session.readable hfuel howner hne hallowed hpiece
  have htells := h.tells.append hacts
  simp only [List.append_nil] at htells
  have haccepts : acceptsOf (es ++ [(.readable i received, memory)]) = acceptsOf es := by
    rw [acceptsOf, List.filterMap_append]
    exact List.append_nil _
  rw [← haccepts] at htells
  refine ⟨hsession, ?_, ⟨htells.sent, htells.accepts, ?_⟩, ?_⟩
  · simp only [Session.record, howner, System.exchange, hne, ↓reduceIte]
    exact h.run.append hrun
  · intro c'
    rw [htells.packages c']
    simp only [Session.record, howner]
    by_cases hc : c = c'
    · rw [if_pos hc, ← hc, Function.update_self, harrived]
    · rw [if_neg hc, Function.update_of_ne (Ne.symm hc), List.append_nil]
  · intro j c' m sent hmem
    simp only [Session.record, howner]
    rcases List.mem_append.mp hmem with hmem | hmem
    · exact h.slot j c' m sent hmem
    · obtain ⟨m', sent', hact⟩ := honly _ hmem
      obtain ⟨rfl, rfl, -, -⟩ := Act.package.inj hact
      exact h.session.slot j c' howner

/-- A piece comes to an act for each package that it completes. -/
theorem System.Inv.readable (h : System.Inv sends es acts s) (hfuel : MAXRECV < fuel) {i : Slot}
    {c : ℕ} {received : List Byte} (howner : s.session.owner i = some c) (hne : received ≠ [])
    (hallowed : s.session.Allowed sends (.readable i received)) {round : Round}
    (hserve : serveRound fuel memory s.session.server s.registry (.readable i received) =
      .ok round) :
    ∃ acts', System.Inv sends (es ++ [(.readable i received, memory)]) (acts ++ acts')
      ⟨s.session.record round.server round.calls (.readable i received), round.registry,
        s.sent ++ round.sent⟩ := by
  obtain ⟨b, ms, hpiece, -, harrived⟩ := h.session.piece hfuel howner hne hallowed
  rw [serveRound, hpiece, ok_bind] at hserve
  obtain ⟨⟨registry, sent⟩, hhandle, hserve⟩ := bind_eq_ok.mp hserve
  obtain rfl := Except.ok.inj hserve
  obtain ⟨acts', hrun, hacts, honly⟩ := exists_acts (x := s.exchange) howner hhandle
  exact ⟨acts', h.handled hfuel howner hne hallowed hpiece harrived hrun hacts honly⟩

theorem System.Inv.step (h : System.Inv sends es acts s) (hfuel : MAXRECV < fuel)
    {e : Event × (ℕ → HandlerLocals)} {t : System} (hstep : System.Step sends fuel s e t) :
    ∃ acts', System.Inv sends (es ++ [e]) (acts ++ acts') t := by
  obtain ⟨e, memory⟩ := e
  obtain ⟨hallowed, round, hserve, rfl⟩ := hstep
  cases e with
  | accept newSocket =>
    obtain rfl := Except.ok.inj hserve
    refine ⟨[.accept newSocket], ?_⟩
    simp only [List.append_nil]
    exact h.accept hallowed
  | readable i received =>
    obtain ⟨c, howner, -⟩ := id hallowed
    by_cases hne : received = []
    · subst hne
      have hsocket : s.session.server.clientSocket i ≠ 0 := by
        intro hzero
        rw [(h.session.open_iff i).mpr hzero] at howner
        cases howner
      simp only [serveRound, mainServerLoop, hsocket, ↓reduceIte, readClient] at hserve
      obtain rfl := Except.ok.inj hserve
      refine ⟨[.close i], ?_⟩
      simp only [List.append_nil]
      exact h.close howner
    · exact h.readable hfuel howner hne hallowed hserve

theorem System.inv_init (sends : ℕ → List SentPackage) :
    System.Inv sends [] [] System.init := by
  refine ⟨Session.inv_init sends, Run.nil _, ⟨rfl, rfl, ?_⟩, ?_⟩
  · intro c
    change [] = arrived SentPackage.bytes (sends c) 0
    cases sends c with
    | nil => rfl
    | cons m rest => exact (arrived_cons_unfinished _ _ _ _ m.bytes_pos).symm
  · intro i c m sent hmem
    exact absurd hmem List.not_mem_nil

/-- Every run of the manager comes to a run of the machine without bytes. -/
theorem System.exists_inv (hfuel : MAXRECV < fuel)
    (hrun : Run (System.Step sends fuel) System.init es s) :
    ∃ acts, System.Inv sends es acts s := by
  induction hrun with
  | nil => exact ⟨[], System.inv_init sends⟩
  | snoc _ hlast ih =>
    obtain ⟨acts, hinv⟩ := ih
    obtain ⟨acts', hinv'⟩ := hinv.step hfuel hlast
    exact ⟨_, hinv'⟩

end

section

variable {sends : ℕ → List SentPackage} {es : List (Event × (ℕ → HandlerLocals))}
  {acts : List Act} {s : System} {fuel : ℕ}

/-- Each connection has delivered the bytes of its packages and no others. -/
structure System.Whole (sends : ℕ → List SentPackage)
    (es : List (Event × (ℕ → HandlerLocals))) (acts : List Act) (s : System) : Prop extends
    System.Inv sends es acts s where
  received : ∀ c, s.session.received c =
    streamOf SentPackage.bytes (acts.filterMap (Act.packageOf c))

/-- Behind whole packages nothing is held. -/
theorem whole_stream (done todo : List SentPackage) :
    arrived SentPackage.bytes (done ++ todo) (streamOf SentPackage.bytes done).length = done ∧
      pending SentPackage.bytes (done ++ todo) (streamOf SentPackage.bytes done) = [] := by
  have hstands : Stands SentPackage.bytes (done ++ todo) (streamOf SentPackage.bytes done) done [] :=
    ⟨todo, rfl, (List.append_nil _).symm, List.nil_prefix, fun m _ _ => m.bytes_pos⟩
  exact ⟨hstands.unique.1.symm, hstands.unique.2.symm⟩

/-- A package that comes in one piece is one act. -/
theorem System.Whole.package (h : System.Whole sends es acts s) (hfuel : MAXRECV < fuel) {i : Slot}
    {c : ℕ} {m : SentPackage} {locals : HandlerLocals} {registry : RegistryState}
    {sent : List Sent} (howner : s.session.owner i = some c)
    (hhandle : handlePackage s.session.server.clientSocket locals s.registry (m.handedOn i) =
      .ok (registry, sent))
    (hsends : acts.filterMap (Act.packageOf c) ++ [m] <+: sends c) :
    ∃ t, System.Step sends fuel s (.readable i m.bytes, fun _ => locals) t ∧
      t.exchange = { s.exchange with registry := registry } ∧
      System.Whole sends (es ++ [(.readable i m.bytes, fun _ => locals)])
        (acts ++ [.package i c m sent]) t := by
  obtain ⟨todo, htodo⟩ := hsends
  have hsplit : sends c = acts.filterMap (Act.packageOf c) ++ (m :: todo) := by
    rw [← htodo, List.append_assoc, List.singleton_append]
  have hmore : s.session.received c ++ m.bytes =
      streamOf SentPackage.bytes (acts.filterMap (Act.packageOf c) ++ [m]) := by
    rw [h.received c]
    simp
  have hne : m.bytes ≠ [] := List.ne_nil_of_length_pos m.bytes_pos
  obtain ⟨b, hb, hholds⟩ := h.session.buffer i c howner
  have hempty := (whole_stream (acts.filterMap (Act.packageOf c)) (m :: todo)).2
  rw [← hsplit, ← h.received c] at hempty
  rw [hempty] at hholds
  have hallowed : s.session.Allowed sends (.readable i m.bytes) := by
    refine ⟨c, howner, m.bytes_eq.2, ?_, ?_⟩
    · rw [hmore, ← htodo]
      exact ⟨streamOf SentPackage.bytes todo, (streamOf_append ..).symm⟩
    · intro b' hb'
      obtain rfl := Option.some.inj (hb'.symm.trans hb)
      have hsize := m.bytes_eq.2
      have hcount : b'.receiveCount = 0 := hholds.count
      rw [hcount]
      omega
  obtain ⟨b₁, ms, hpiece, -, harrived⟩ := h.session.piece hfuel howner hne hallowed
  obtain rfl : ms = [m] := by
    have hbefore := (whole_stream (acts.filterMap (Act.packageOf c)) (m :: todo)).1
    have hafter := (whole_stream (acts.filterMap (Act.packageOf c) ++ [m]) todo).1
    rw [← hsplit, ← h.received c] at hbefore
    rw [htodo, ← hmore] at hafter
    rw [hbefore, hafter] at harrived
    exact (List.append_cancel_left harrived).symm
  have hserve : serveRound fuel (fun _ => locals) s.session.server s.registry
      (.readable i m.bytes) = .ok ⟨{ s.session.server with
        packageBuffer := Function.update s.session.server.packageBuffer i (some b₁) },
        [m.handedOn i], registry, sent⟩ := by
    rw [serveRound, hpiece, ok_bind]
    simp only [List.map_cons, List.map_nil, handlePackages, hhandle, ok_bind, List.append_nil]
  refine ⟨_, ⟨hallowed, _, hserve, rfl⟩, ?_, ?_⟩
  · simp only [System.exchange, Session.record, howner, hne, ↓reduceIte]
  · have hstep : Exchange.Step s.exchange (.package i c m sent)
        { s.exchange with registry := registry } := .package howner hhandle
    have honly : ∀ a ∈ [Act.package i c m sent], ∃ m sent, a = .package i c m sent := by
      intro a ha
      exact ⟨m, sent, List.mem_singleton.mp ha⟩
    refine ⟨h.toInv.handled hfuel howner hne hallowed hpiece harrived (Run.single hstep)
      (tells_package i c m sent) honly, ?_⟩
    intro c'
    rw [List.filterMap_append, (tells_package i c m sent).packages c']
    simp only [Session.record, howner]
    by_cases hc : c = c'
    · rw [if_pos hc, ← hc, Function.update_self, hmore]
    · rw [if_neg hc, Function.update_of_ne (Ne.symm hc), List.append_nil, h.received c']

theorem System.Whole.accept (h : System.Whole sends es acts s) {newSocket : IoTSocket}
    (hpos : newSocket ≠ 0) (memory : ℕ → HandlerLocals) :
    System.Whole sends (es ++ [(.accept newSocket, memory)]) (acts ++ [.accept newSocket])
      ⟨s.session.record (acceptClient s.session.server newSocket) [] (.accept newSocket),
        s.registry, s.sent⟩ := by
  refine ⟨h.toInv.accept hpos, ?_⟩
  intro c
  rw [List.filterMap_append]
  have hnone : [Act.accept newSocket].filterMap (Act.packageOf c) = [] := rfl
  rw [hnone, List.append_nil, ← h.received c]
  cases hfree : freeSlot s.session.server.clientSocket with
  | none => simp only [Session.record, hfree]
  | some i => simp only [Session.record, hfree]

theorem System.Whole.close (h : System.Whole sends es acts s) {i : Slot} {c : ℕ}
    (howner : s.session.owner i = some c) (memory : ℕ → HandlerLocals) :
    System.Whole sends (es ++ [(.readable i [], memory)]) (acts ++ [.close i])
      ⟨s.session.record (closeClient s.session.server i) [] (.readable i []),
        s.registry, s.sent⟩ := by
  refine ⟨h.toInv.close howner, ?_⟩
  intro c'
  rw [List.filterMap_append]
  have hnone : [Act.close i].filterMap (Act.packageOf c') = [] := rfl
  rw [hnone, List.append_nil, ← h.received c']
  simp only [Session.record, howner, List.append_nil, Function.update_eq_self]

/-- Each act is an event of the manager. -/
theorem System.Whole.step (h : System.Whole sends es acts s) (hfuel : MAXRECV < fuel) {a : Act}
    {y : Exchange} (hstep : Exchange.Step s.exchange a y)
    (hsends : ∀ c, (acts ++ [a]).filterMap (Act.packageOf c) <+: sends c) :
    ∃ e t, System.Step sends fuel s e t ∧ t.exchange = y ∧
      System.Whole sends (es ++ [e]) (acts ++ [a]) t := by
  generalize hx : s.exchange = x at hstep
  have hclient : s.session.server.clientSocket = x.clientSocket := hx ▸ rfl
  have howned : s.session.owner = x.owner := hx ▸ rfl
  cases hstep with
  | @accept newSocket i hpos hfree =>
    refine ⟨(.accept newSocket, fun _ => UnreachableNotice.blankLocals), _,
      ⟨hpos, _, rfl, rfl⟩, ?_, ?_⟩
    · rw [← hclient] at hfree
      subst hx
      simp only [System.exchange, Session.record, hfree, acceptClient]
    · simp only [List.append_nil]
      exact h.accept hpos _
  | @forget newSocket hpos hfree =>
    refine ⟨(.accept newSocket, fun _ => UnreachableNotice.blankLocals), _,
      ⟨hpos, _, rfl, rfl⟩, ?_, ?_⟩
    · rw [← hclient] at hfree
      subst hx
      simp only [System.exchange, Session.record, hfree, acceptClient]
    · simp only [List.append_nil]
      exact h.accept hpos _
  | @close i c howner =>
    rw [← howned] at howner
    obtain ⟨b, hb, hholds⟩ := h.session.buffer i c howner
    have hsocket : s.session.server.clientSocket i ≠ 0 := by
      intro hzero
      rw [(h.session.open_iff i).mpr hzero] at howner
      cases howner
    have hallowed : s.session.Allowed sends (.readable i []) := by
      refine ⟨c, howner, Nat.zero_le _, ?_, ?_⟩
      · rw [List.append_nil]
        exact h.session.stream c
      · intro b' hb'
        obtain rfl := Option.some.inj (hb'.symm.trans hb)
        have hsize := hholds.length_le
        rw [hholds.count, List.length_nil]
        omega
    have hserve : serveRound fuel (fun _ => UnreachableNotice.blankLocals) s.session.server
        s.registry (.readable i []) = .ok ⟨closeClient s.session.server i, [], s.registry, []⟩ := by
      simp only [serveRound, mainServerLoop, hsocket, ↓reduceIte, readClient]
      rfl
    refine ⟨(.readable i [], fun _ => UnreachableNotice.blankLocals), _,
      ⟨hallowed, _, hserve, rfl⟩, ?_, ?_⟩
    · subst hx
      simp only [System.exchange, Session.record, howner, closeClient, ↓reduceIte]
    · simp only [List.append_nil]
      exact h.close howner _
  | @package i c m locals registry sent howner hhandle =>
    rw [← howned] at howner
    rw [← hclient] at hhandle
    have hregistry : s.registry = x.registry := hx ▸ rfl
    rw [← hregistry] at hhandle
    have hmore : acts.filterMap (Act.packageOf c) ++ [m] <+: sends c := by
      have hc := hsends c
      rw [List.filterMap_append, (tells_package i c m sent).packages c, if_pos rfl] at hc
      exact hc
    obtain ⟨t, ht, hexchange, hwhole⟩ := h.package hfuel howner hhandle hmore
    exact ⟨_, t, ht, hx ▸ hexchange, hwhole⟩

/-- Every run without bytes is a run of the manager in which each package comes in one piece. -/
theorem exists_run (sends : ℕ → List SentPackage) (hfuel : MAXRECV < fuel) {x : Exchange}
    (hrun : Run Exchange.Step Exchange.init acts x)
    (hsends : ∀ c, acts.filterMap (Act.packageOf c) <+: sends c) :
    ∃ es s, Run (System.Step sends fuel) System.init es s ∧ s.exchange = x ∧
      System.Whole sends es acts s := by
  induction hrun with
  | nil =>
    refine ⟨[], System.init, Run.nil _, rfl, ⟨System.inv_init sends, fun c => rfl⟩⟩
  | snoc _ hlast ih =>
    obtain ⟨es, s, hrun, hx, hwhole⟩ := ih fun c => by
      have hc := hsends c
      rw [List.filterMap_append] at hc
      exact (List.prefix_append ..).trans hc
    rw [← hx] at hlast
    obtain ⟨e, t, hstep, hexchange, hwhole'⟩ := hwhole.step hfuel hlast hsends
    exact ⟨_, t, hrun.snoc hstep, hexchange, hwhole'⟩

end

/-- The manager does what the machine without bytes does and nothing else: every run of it comes
to a run of the machine that sends the same, in which the packages of each connection are those
that have arrived whole; and every run of the machine is one of the manager, for some packages of
the clients, all of which have arrived. -/
theorem manager_exchanges {fuel : ℕ} (hfuel : MAXRECV < fuel) :
    (∀ sends es s, Run (System.Step sends fuel) System.init es s →
      ∃ acts, Run Exchange.Step Exchange.init acts s.exchange ∧
        Tells acts s.sent (acceptsOf es)
          (fun c => arrived SentPackage.bytes (sends c) (s.session.received c).length)) ∧
    ∀ acts x, Run Exchange.Step Exchange.init acts x →
      ∃ sends es s, Run (System.Step sends fuel) System.init es s ∧ s.exchange = x ∧
        Tells acts s.sent (acceptsOf es) sends ∧
        ∀ c, s.session.received c = streamOf SentPackage.bytes (sends c) := by
  constructor
  · intro sends es s hrun
    obtain ⟨acts, hinv⟩ := System.exists_inv hfuel hrun
    exact ⟨acts, hinv.run, hinv.tells⟩
  · intro acts x hrun
    obtain ⟨es, s, hrun', hx, hwhole⟩ := exists_run
      (fun c => acts.filterMap (Act.packageOf c)) hfuel hrun fun c => List.prefix_rfl
    exact ⟨_, es, s, hrun', hx, ⟨hwhole.tells.sent, hwhole.tells.accepts, fun c => rfl⟩,
      hwhole.received⟩

/-- The manager when the first client has come, into this slot. -/
def firstClient (i : Slot) (socket : IoTSocket) : Exchange where
  clientSocket := Function.update Exchange.init.clientSocket i socket
  owner := Function.update Exchange.init.owner i (some 0)
  accepted := 1
  registry := Exchange.init.registry

theorem firstClient_step : Exchange.Step Exchange.init (.accept 4) (firstClient 0 4) := by
  have hfree : freeSlot Exchange.init.clientSocket = some 0 := by decide
  exact .accept (by decide) hfree

theorem firstClient_owner : (firstClient 0 4).owner 0 = some 0 := rfl

theorem firstClient_socket : (firstClient 0 4).clientSocket 0 = 4 := rfl

/-- The first client sends a package for a device that is not there. -/
theorem exists_unknown :
    ∃ (m : SentPackage) (sent : Sent) (x : Exchange), m.sorIp = ascii "A" ∧
      m.desIp = ascii "B" ∧ Run Exchange.Step Exchange.init [.accept 4, .package 0 0 m [sent]] x := by
  obtain ⟨m, hsor, hdes, -⟩ := SentPackage.exists_of (ascii "A") (ascii "B") [120] isAddress_A
    isAddress_B (by decide)
  obtain ⟨hsource, hdestination⟩ := handedOn_texts m 0
  rw [hsor] at hsource
  rw [hdes] at hdestination
  have hrequest : isIpRequest (m.handedOn 0) = .ok false := by
    rw [isIpRequest, hdestination, ok_bind, if_neg (by decide)]
  have hshort : BrokerDeletion.IsDeviceAddress (ascii "B") :=
    ⟨by decide, by decide, List.all_eq_true.mp (by decide)⟩
  have hnotifies : UnreachableNotice.Notifies (firstClient 0 4).clientSocket
      UnreachableNotice.blankLocals (firstClient 0 4).registry (m.handedOn 0) (ascii "A")
      (ascii "B") :=
    UnreachableNotice.notifies_of_fits hshort hrequest hdestination (by decide)
      (findDeviceWithIp_noDevices _) hsource isAddress_A rfl
  obtain ⟨sent, hhandle, -⟩ := hnotifies
  exact ⟨m, sent, _, hsor, hdes, (Run.single firstClient_step).snoc
    (.package firstClient_owner hhandle)⟩

theorem manager_exchanges_unknown :
    ∃ m sent sends es s, m.desIp = ascii "B" ∧
      Run (System.Step sends (MAXRECV + 1)) System.init es s ∧ s.sent = [sent] ∧ sends 0 = [m] := by
  obtain ⟨m, sent, x, -, hdes, hrun⟩ := exists_unknown
  obtain ⟨sends, es, s, hsystem, -, htells, -⟩ :=
    (manager_exchanges (Nat.lt_succ_self MAXRECV)).2 _ x hrun
  exact ⟨m, sent, sends, es, s, hdes, hsystem, htells.sent.symm, (htells.packages 0).symm⟩

end IoTRepublic.ManagerExchange
