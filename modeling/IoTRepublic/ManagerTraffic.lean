import IoTRepublic.ManagerExchange

/-!
What a client can tell of a run of the manager, which is one without a request for an
address. Each package that arrived whole was answered once: it went on to another client
as it came, or its sender got one package of the manager, or nothing was sent for a
package to the manager. And each record of the registry comes from a package over the
slot that the record names.
-/
namespace IoTRepublic.ManagerTraffic

open Package Manager Registry Forwarding Management Framing Runs Reassembly ManagerAnswers
  ManagerExchange

/-- The connections of the slots are those that were accepted, over their sockets. -/
structure Held (accepts : List IoTSocket) (x : Exchange) : Prop where
  count : x.accepted = accepts.length
  owner : ∀ i c, x.owner i = some c → accepts[c]? = some (x.clientSocket i)
  inUse : ∀ i c, x.owner i = some c → x.clientSocket i ≠ 0
  known : ∀ i, x.clientSocket i = 0 ∨ x.clientSocket i ∈ accepts

theorem held_init : Held [] Exchange.init where
  count := rfl
  owner := by simp [Exchange.init]
  inUse := by simp [Exchange.init]
  known := by simp [Exchange.init]

section

variable {accepts : List IoTSocket} {x y : Exchange} {acts : List Act}

theorem Held.accept (h : Held accepts x) {newSocket : IoTSocket} (hpos : newSocket ≠ 0)
    (i : Slot) :
    Held (accepts ++ [newSocket])
      { x with
        clientSocket := Function.update x.clientSocket i newSocket
        owner := Function.update x.owner i (some x.accepted)
        accepted := x.accepted + 1 } := by
  refine ⟨?_, ?_, ?_, ?_⟩
  · rw [List.length_append, List.length_singleton, ← h.count]
  · intro j c hj
    dsimp only at hj ⊢
    by_cases hji : j = i
    · rw [hji, Function.update_self] at hj
      obtain rfl := Option.some.inj hj
      rw [hji, Function.update_self, h.count, List.getElem?_concat_length]
    · rw [Function.update_of_ne hji] at hj ⊢
      have hsocket := h.owner j c hj
      rw [List.getElem?_append_left (List.getElem?_eq_some_iff.mp hsocket).1, hsocket]
  · intro j c hj
    dsimp only at hj ⊢
    by_cases hji : j = i
    · rw [hji, Function.update_self]
      exact hpos
    · rw [Function.update_of_ne hji] at hj ⊢
      exact h.inUse j c hj
  · intro j
    dsimp only
    by_cases hji : j = i
    · rw [hji, Function.update_self]
      exact .inr (List.mem_append_right _ List.mem_cons_self)
    · rw [Function.update_of_ne hji]
      exact (h.known j).imp_right fun hmem => List.mem_append_left _ hmem

theorem Held.forget (h : Held accepts x) (newSocket : IoTSocket) :
    Held (accepts ++ [newSocket]) { x with accepted := x.accepted + 1 } := by
  refine ⟨?_, ?_, h.inUse, ?_⟩
  · rw [List.length_append, List.length_singleton, ← h.count]
  · intro j c hj
    have hsocket := h.owner j c hj
    rw [List.getElem?_append_left (List.getElem?_eq_some_iff.mp hsocket).1, hsocket]
  · intro j
    exact (h.known j).imp_right fun hmem => List.mem_append_left _ hmem

theorem Held.close (h : Held accepts x) (i : Slot) :
    Held accepts
      { x with
        clientSocket := Function.update x.clientSocket i 0
        owner := Function.update x.owner i none } := by
  refine ⟨h.count, ?_, ?_, ?_⟩
  · intro j c hj
    dsimp only at hj ⊢
    by_cases hji : j = i
    · rw [hji, Function.update_self] at hj
      cases hj
    · rw [Function.update_of_ne hji] at hj ⊢
      exact h.owner j c hj
  · intro j c hj
    dsimp only at hj ⊢
    by_cases hji : j = i
    · rw [hji, Function.update_self] at hj
      cases hj
    · rw [Function.update_of_ne hji] at hj ⊢
      exact h.inUse j c hj
  · intro j
    dsimp only
    by_cases hji : j = i
    · rw [hji, Function.update_self]
      exact .inl rfl
    · rw [Function.update_of_ne hji]
      exact h.known j

theorem Held.step (h : Held accepts x) {a : Act} (hstep : Exchange.Step x a y) :
    Held (accepts ++ [a].filterMap Act.accepts) y := by
  cases hstep with
  | accept hpos hfree => exact h.accept hpos _
  | forget hpos hfree => exact h.forget _
  | close howner =>
    have hnone : ∀ i, [Act.close i].filterMap Act.accepts = [] := fun i => rfl
    rw [hnone, List.append_nil]
    exact h.close _
  | package howner hhandle =>
    have hnone : ∀ i c m sent, [Act.package i c m sent].filterMap Act.accepts = [] :=
      fun i c m sent => rfl
    rw [hnone, List.append_nil]
    exact ⟨h.count, h.owner, h.inUse, h.known⟩

theorem held_run (hrun : Run Exchange.Step Exchange.init acts x) :
    Held (acts.filterMap Act.accepts) x := by
  induction hrun with
  | nil => exact held_init
  | snoc _ hlast ih =>
    rw [List.filterMap_append]
    exact ih.step hlast

end

/-- The answers to a package of the client with this socket. -/
inductive Accounted (accepts : List IoTSocket) (socket : IoTSocket) (m : SentPackage) :
    List Sent → Prop
  | nothing : m.desIp = ServerIP → Accounted accepts socket m []
  | server {bytes : List Byte} : FromServer m.sorIp bytes →
      Accounted accepts socket m [⟨socket, bytes⟩]
  | forward {other : IoTSocket} : m.desIp ≠ ServerIP → (other = 0 ∨ other ∈ accepts) →
      Accounted accepts socket m [⟨other, m.bytes⟩]

theorem socketAt_known {accepts : List IoTSocket} {x : Exchange} (h : Held accepts x) {idx : ℤ}
    {socket : IoTSocket} (hsocket : socketAt x.clientSocket idx = .ok socket) :
    socket = 0 ∨ socket ∈ accepts := by
  unfold socketAt at hsocket
  split at hsocket
  · obtain rfl := Except.ok.inj hsocket
    exact h.known _
  · cases hsocket

theorem accounted {acts : List Act} {x : Exchange}
    (hrun : Run Exchange.Step Exchange.init acts x) {i : Slot} {c : ℕ} {m : SentPackage}
    {sent : List Sent} (hact : Act.package i c m sent ∈ acts) :
    ∃ socket, (acts.filterMap Act.accepts)[c]? = some socket ∧ socket ≠ 0 ∧
      Accounted (acts.filterMap Act.accepts) socket m sent := by
  obtain ⟨before, u, v, hbefore, hbeforeRun, hstep⟩ := hrun.exists_step hact
  have hheld := held_run hbeforeRun
  obtain ⟨behind, hbehind⟩ := hbefore
  have hsplit : acts.filterMap Act.accepts =
      before.filterMap Act.accepts ++ behind.filterMap Act.accepts := by
    rw [← hbehind, List.filterMap_append]
  cases hstep with
  | package howner hhandle =>
    have hsocket := hheld.owner i c howner
    refine ⟨u.clientSocket i, ?_, hheld.inUse i c howner, ?_⟩
    · rw [hsplit, List.getElem?_append_left (List.getElem?_eq_some_iff.mp hsocket).1, hsocket]
    · obtain ⟨-, hanswer⟩ := handlePackage_cases hhandle
      cases hanswer with
      | nothing hdes => exact .nothing hdes
      | list hdes hbytes => exact .server hbytes
      | notice hdes hfind hbytes => exact .server hbytes
      | forward hdes hfind hat =>
        refine .forward hdes ?_
        rw [hsplit]
        exact (socketAt_known hheld hat).imp_right fun hmem => List.mem_append_left _ hmem

/-- In every run of the manager, whatever it was sent over which connections and however it was
cut: what it has sent are the answers to the packages that have arrived whole, in the order in
which they were handled, and there is one answer for each. A package for another device goes on
as it came, to a socket that was accepted or to the 0 of a slot that was freed, or its sender gets
one package of the manager; for a package to the manager its sender gets one or none. -/
theorem manager_answers {sends : ℕ → List SentPackage} {fuel : ℕ} (hfuel : MAXRECV < fuel)
    {es : List (Event × (ℕ → HandlerLocals))} {s : System}
    (hrun : Run (System.Step sends fuel) System.init es s) :
    ∃ acts : List Act, s.sent = acts.flatMap Act.sent ∧
      (∀ c, acts.filterMap (Act.packageOf c) =
        arrived SentPackage.bytes (sends c) (s.session.received c).length) ∧
      ∀ i c m sent, Act.package i c m sent ∈ acts →
        ∃ socket, (acceptsOf es)[c]? = some socket ∧ socket ≠ 0 ∧
          Accounted (acceptsOf es) socket m sent := by
  obtain ⟨acts, hinv⟩ := System.exists_inv hfuel hrun
  refine ⟨acts, hinv.tells.sent.symm, hinv.tells.packages, ?_⟩
  intro i c m sent hact
  rw [← hinv.tells.accepts]
  exact accounted hinv.run hact

/-- A package is for an unknown address: it was handled, and its sender is told or it goes on to a
socket that was accepted. -/
theorem manager_answers_unknown :
    ∃ m sends es s, m.desIp = ascii "B" ∧
      Run (System.Step sends (MAXRECV + 1)) System.init es s ∧
      ∃ acts : List Act, s.sent = acts.flatMap Act.sent ∧
        acts.filterMap (Act.packageOf 0) = [m] ∧
        ∃ i answers socket, Act.package i 0 m answers ∈ acts ∧
          (acceptsOf es)[0]? = some socket ∧ Accounted (acceptsOf es) socket m answers ∧
          answers ≠ [] := by
  obtain ⟨m, sent, x, -, hdes, hrun⟩ := exists_unknown
  obtain ⟨es, s, hsystem, -, hwhole⟩ := exists_run
    (fun c => [Act.accept 4, .package 0 0 m [sent]].filterMap (Act.packageOf c))
    (Nat.lt_succ_self MAXRECV) hrun fun c => List.prefix_rfl
  obtain ⟨acts, hsent, hpackages, haccounted⟩ :=
    manager_answers (Nat.lt_succ_self MAXRECV) hsystem
  have hone : acts.filterMap (Act.packageOf 0) = [m] := by
    rw [hpackages 0, ← hwhole.tells.packages 0]
    rfl
  obtain ⟨i, answers, hact⟩ := Act.exists_of_packageOf (hone ▸ List.mem_singleton_self m)
  obtain ⟨socket, hsocket, -, haccount⟩ := haccounted i 0 m answers hact
  refine ⟨m, _, es, s, hdes, hsystem, acts, hsent, hone, i, answers, socket, hact, hsocket,
    haccount, ?_⟩
  rintro rfl
  cases haccount with
  | nothing hserver => exact absurd (hdes.symm.trans hserver) (by decide)

section

variable {acts : List Act} {x : Exchange}

/-- The registry has gone through operations that packages asked for. -/
theorem exists_operations (hrun : Run Exchange.Step Exchange.init acts x) :
    ∃ ops, Run RegistryMap.Step noDevices ops x.registry.devices ∧
      ∀ op ∈ ops, ∃ i c m sent, Act.package i c m sent ∈ acts ∧ Asks i m op := by
  induction hrun with
  | nil => exact ⟨[], Run.nil _, fun op hop => absurd hop List.not_mem_nil⟩
  | @snoc _ _ acts a _ hlast ih =>
    obtain ⟨ops, hrun, hasked⟩ := ih
    have hkept : ∀ op ∈ ops, ∃ i c m sent, Act.package i c m sent ∈ acts ++ [a] ∧ Asks i m op := by
      intro op hop
      obtain ⟨i, c, m, sent, hact, hasks⟩ := hasked op hop
      exact ⟨i, c, m, sent, List.mem_append_left _ hact, hasks⟩
    cases hlast with
    | accept _ _ => exact ⟨ops, hrun, hkept⟩
    | forget _ _ => exact ⟨ops, hrun, hkept⟩
    | close _ => exact ⟨ops, hrun, hkept⟩
    | @package i c m locals registry sent howner hhandle =>
      obtain ⟨hobeys, -⟩ := handlePackage_cases hhandle
      rcases hobeys with hsame | ⟨op, hasks, hop⟩
      · refine ⟨ops, ?_, hkept⟩
        dsimp only
        rw [hsame]
        exact hrun
      · refine ⟨ops ++ [op], hrun.snoc hop, ?_⟩
        intro op' hop'
        rcases List.mem_append.mp hop' with hop' | hop'
        · exact hkept op' hop'
        · obtain rfl := List.mem_singleton.mp hop'
          exact ⟨i, c, m, sent, List.mem_append_right _ List.mem_cons_self, hasks⟩

end

end IoTRepublic.ManagerTraffic
