import Mathlib.Data.List.Basic
import Mathlib.Tactic.Common

/-!
Reassembly of self-delimiting messages from a stream that arrives in pieces.
A reader looks at the elements held so far and takes one complete message off
their front, or waits when the first message is unfinished. Draining the held
elements after every piece delivers exactly the messages whose elements have
all arrived, once each and in order, and holds exactly the unfinished tail.
-/

namespace Framing

variable {α β : Type*}

def streamOf (encode : β → List α) (messages : List β) : List α :=
  messages.flatMap encode

/-- The messages whose elements all lie among the first `n` of the stream. -/
def arrived (encode : β → List α) : List β → ℕ → List β
  | [], _ => []
  | m :: rest, n =>
    if (encode m).length ≤ n then m :: arrived encode rest (n - (encode m).length) else []

/-- The elements received after the last message that has arrived. -/
def pending (encode : β → List α) (messages : List β) (received : List α) : List α :=
  received.drop (streamOf encode (arrived encode messages received.length)).length

/-- A reader of the messages: from held elements it takes a message and keeps the rest,
or it waits. -/
structure IsReader (encode : β → List α) (takes : List α → β → List α → Prop)
    (waits : List α → Prop) : Prop where
  empty : waits []
  complete : ∀ m rest, takes (encode m ++ rest) m rest
  unfinished : ∀ m held, held <+: encode m → held.length < (encode m).length → waits held

/-- Taking messages off the front until the reader waits. -/
inductive Drains (takes : List α → β → List α → Prop) (waits : List α → Prop) :
    List α → List β → List α → Prop
  | stop {held : List α} : waits held → Drains takes waits held [] held
  | take {held rest left : List α} {m : β} {ms : List β} :
      takes held m rest → Drains takes waits rest ms left →
        Drains takes waits held (m :: ms) left

/-- A reader that takes at least one element a message ends within the held elements. -/
theorem Drains.length_le {takes : List α → β → List α → Prop} {waits : List α → Prop}
    (hshorter : ∀ held m rest, takes held m rest → rest.length < held.length)
    {held left : List α} {ms : List β} (h : Drains takes waits held ms left) :
    ms.length + left.length ≤ held.length := by
  induction h with
  | stop => simp
  | take htake _ ih =>
    have := hshorter _ _ _ htake
    simp only [List.length_cons]
    omega

/-- From nothing such a reader takes nothing. -/
theorem Drains.of_nil {takes : List α → β → List α → Prop} {waits : List α → Prop}
    (hshorter : ∀ held m rest, takes held m rest → rest.length < held.length)
    {left : List α} {ms : List β} (h : Drains takes waits [] ms left) : ms = [] ∧ left = [] := by
  have hle := h.length_le hshorter
  rw [List.length_nil] at hle
  exact ⟨List.length_eq_zero_iff.mp (by omega), List.length_eq_zero_iff.mp (by omega)⟩

/-- Where a stream stands: the messages done, the elements held and what is still to come. -/
def Stands (encode : β → List α) (messages : List β) (received : List α)
    (done : List β) (held : List α) : Prop :=
  ∃ todo, messages = done ++ todo ∧ received = streamOf encode done ++ held ∧
    held <+: streamOf encode todo ∧
    ∀ m rest, todo = m :: rest → held.length < (encode m).length

@[simp] theorem streamOf_nil (encode : β → List α) : streamOf encode [] = [] := rfl

@[simp] theorem streamOf_cons (encode : β → List α) (m : β) (rest : List β) :
    streamOf encode (m :: rest) = encode m ++ streamOf encode rest := by
  simp [streamOf]

@[simp] theorem streamOf_append (encode : β → List α) (xs ys : List β) :
    streamOf encode (xs ++ ys) = streamOf encode xs ++ streamOf encode ys := by
  simp [streamOf]

/-- A beginning of the stream either holds the first message or is a part of it. -/
theorem prefix_cons_cases {encode : β → List α} {m : β} {rest : List β} {received : List α}
    (h : received <+: streamOf encode (m :: rest)) :
    (∃ more, received = encode m ++ more ∧ more <+: streamOf encode rest) ∨
      (received <+: encode m ∧ received.length < (encode m).length) := by
  rw [streamOf_cons] at h
  by_cases hlen : (encode m).length ≤ received.length
  · obtain ⟨more, rfl⟩ := List.prefix_of_prefix_length_le
      (List.prefix_append (encode m) (streamOf encode rest)) h hlen
    exact Or.inl ⟨more, rfl, (List.prefix_append_right_inj _).mp h⟩
  · have hlt : received.length < (encode m).length := by omega
    exact Or.inr ⟨List.prefix_of_prefix_length_le h
      (List.prefix_append (encode m) (streamOf encode rest)) (by omega), hlt⟩

theorem arrived_cons_complete (encode : β → List α) (m : β) (rest : List β) (more : List α) :
    arrived encode (m :: rest) (encode m ++ more).length =
      m :: arrived encode rest more.length := by
  simp [arrived, List.length_append]

theorem arrived_cons_unfinished (encode : β → List α) (m : β) (rest : List β) (n : ℕ)
    (h : n < (encode m).length) : arrived encode (m :: rest) n = [] := by
  simp [arrived, Nat.not_le.mpr h]

theorem pending_cons_complete (encode : β → List α) (m : β) (rest : List β) (more : List α) :
    pending encode (m :: rest) (encode m ++ more) = pending encode rest more := by
  simp only [pending, arrived_cons_complete, streamOf_cons]
  rw [List.length_append, ← List.drop_drop, List.drop_left]

theorem pending_cons_unfinished (encode : β → List α) (m : β) (rest : List β)
    (received : List α) (h : received.length < (encode m).length) :
    pending encode (m :: rest) received = received := by
  simp [pending, arrived_cons_unfinished encode m rest _ h]

/-- A received beginning of the stream stands at its arrived messages and its pending tail. -/
theorem stands_arrived (encode : β → List α) (messages : List β) (received : List α)
    (h : received <+: streamOf encode messages) :
    Stands encode messages received (arrived encode messages received.length)
      (pending encode messages received) := by
  induction messages generalizing received with
  | nil =>
    have hnil : received = [] := List.prefix_nil.mp h
    subst hnil
    exact ⟨[], rfl, rfl, List.nil_prefix, by simp⟩
  | cons m rest ih =>
    rcases prefix_cons_cases h with ⟨more, rfl, hmore⟩ | ⟨hpart, hlt⟩
    · obtain ⟨todo, hmsgs, hrecv, hheld, hshort⟩ := ih more hmore
      rw [arrived_cons_complete, pending_cons_complete]
      refine ⟨todo, by rw [List.cons_append, ← hmsgs], ?_, hheld, hshort⟩
      rw [streamOf_cons, List.append_assoc, ← hrecv]
    · rw [arrived_cons_unfinished encode m rest _ hlt, pending_cons_unfinished encode m rest _ hlt]
      refine ⟨m :: rest, rfl, rfl, h, ?_⟩
      intro m' rest' heq
      obtain ⟨rfl, -⟩ := List.cons.inj heq
      exact hlt

/-- The done messages and the held elements are determined by what was received. -/
theorem Stands.unique {encode : β → List α} {messages done : List β} {received held : List α}
    (h : Stands encode messages received done held) :
    done = arrived encode messages received.length ∧
      held = pending encode messages received := by
  obtain ⟨todo, rfl, rfl, hheld, hshort⟩ := h
  induction done with
  | nil =>
    cases todo with
    | nil =>
      have hnil : held = [] := List.prefix_nil.mp hheld
      subst hnil
      exact ⟨rfl, rfl⟩
    | cons m rest =>
      have hlt := hshort m rest rfl
      simp only [streamOf_nil, List.nil_append]
      exact ⟨(arrived_cons_unfinished encode m rest _ hlt).symm,
        (pending_cons_unfinished encode m rest _ hlt).symm⟩
  | cons m done ih =>
    rw [List.cons_append, streamOf_cons, List.append_assoc, arrived_cons_complete,
      pending_cons_complete]
    exact ⟨congrArg (List.cons m) ih.1, ih.2⟩

/-- The messages done last stand behind the others. -/
theorem Stands.getElem?_done {encode : β → List α} {messages done ms : List β}
    {received held : List α} (h : Stands encode messages received (done ++ ms) held) {k : ℕ} {m : β}
    (hm : ms[k]? = some m) : messages[done.length + k]? = some m := by
  obtain ⟨todo, rfl, -, -, -⟩ := h
  obtain ⟨hk, -⟩ := List.getElem?_eq_some_iff.mp hm
  rw [List.append_assoc, List.getElem?_append_right (by omega), Nat.add_sub_cancel_left,
    List.getElem?_append_left hk]
  exact hm

/-- More messages behind the stream change nothing about where it stands. -/
theorem Stands.append {encode : β → List α} {messages done : List β} {received held : List α}
    (h : Stands encode messages received done held) (hpos : ∀ m, 0 < (encode m).length)
    (more : List β) : Stands encode (messages ++ more) received done held := by
  obtain ⟨todo, rfl, hreceived, hheld, hshort⟩ := h
  refine ⟨todo ++ more, List.append_assoc .., hreceived, ?_, ?_⟩
  · rw [streamOf_append]
    exact hheld.trans (List.prefix_append ..)
  · intro m rest hfirst
    cases todo with
    | nil =>
      rw [List.prefix_nil.mp hheld]
      exact hpos m
    | cons m' todo =>
      obtain ⟨rfl, -⟩ := List.cons.inj hfirst
      exact hshort m' todo rfl

/-- No message begins with another one, so a stream is cut into messages in one way only. -/
theorem prefix_of_streamOf_prefix {encode : β → List α} (hpos : ∀ m, 0 < (encode m).length)
    (hfree : ∀ m m', encode m <+: encode m' → m = m') {ms messages : List β}
    (h : streamOf encode ms <+: streamOf encode messages) : ms <+: messages := by
  induction ms generalizing messages with
  | nil => exact List.nil_prefix
  | cons m ms ih =>
    rw [streamOf_cons] at h
    cases messages with
    | nil =>
      have hempty := congrArg List.length (List.prefix_nil.mp h)
      rw [List.length_append, List.length_nil] at hempty
      have := hpos m
      omega
    | cons m' messages =>
      rw [streamOf_cons] at h
      obtain rfl : m = m' := by
        rcases List.prefix_or_prefix_of_prefix ((List.prefix_append _ _).trans h)
          (List.prefix_append (encode m') _) with hfront | hfront
        · exact hfree m m' hfront
        · exact (hfree m' m hfront).symm
      obtain ⟨more, rfl⟩ := ih ((List.prefix_append_right_inj _).mp h)
      exact ⟨more, rfl⟩

/-- The held elements are a part of a message, so fewer than the longest message has. -/
theorem pending_length_lt {encode : β → List α} {messages : List β} {received : List α} {n : ℕ}
    (h : received <+: streamOf encode messages) (hn : 0 < n)
    (hsmall : ∀ m ∈ messages, (encode m).length ≤ n) :
    (pending encode messages received).length < n := by
  obtain ⟨todo, hmessages, -, hheld, hshort⟩ := stands_arrived encode messages received h
  cases todo with
  | nil =>
    rw [List.prefix_nil.mp hheld]
    exact hn
  | cons m rest =>
    have hm : m ∈ messages := by
      rw [hmessages]
      exact List.mem_append_right _ List.mem_cons_self
    exact Nat.lt_of_lt_of_le (hshort m rest rfl) (hsmall m hm)

section

variable {encode : β → List α} {takes : List α → β → List α → Prop} {waits : List α → Prop}

/-- Draining a beginning of the stream takes exactly the messages that have arrived. -/
theorem IsReader.drains (hread : IsReader encode takes waits) (messages : List β)
    (received : List α) (h : received <+: streamOf encode messages) :
    Drains takes waits received (arrived encode messages received.length)
      (pending encode messages received) := by
  induction messages generalizing received with
  | nil =>
    have hnil : received = [] := List.prefix_nil.mp h
    subst hnil
    exact Drains.stop hread.empty
  | cons m rest ih =>
    rcases prefix_cons_cases h with ⟨more, rfl, hmore⟩ | ⟨hpart, hlt⟩
    · rw [arrived_cons_complete, pending_cons_complete]
      exact Drains.take (hread.complete m more) (ih more hmore)
    · rw [arrived_cons_unfinished encode m rest _ hlt, pending_cons_unfinished encode m rest _ hlt]
      exact Drains.stop (hread.unfinished m received hpart hlt)

/-- One more piece: draining what was held with the piece behind it delivers the
messages that it completes, and the stream stands behind them. -/
theorem IsReader.drains_piece (hread : IsReader encode takes waits) {messages done : List β}
    {received held piece : List α} (hstands : Stands encode messages received done held)
    (hpiece : received ++ piece <+: streamOf encode messages) :
    ∃ ms left, Drains takes waits (held ++ piece) ms left ∧
      Stands encode messages (received ++ piece) (done ++ ms) left := by
  obtain ⟨todo, rfl, rfl, -, -⟩ := hstands
  have hprefix : held ++ piece <+: streamOf encode todo := by
    rw [streamOf_append, List.append_assoc] at hpiece
    exact (List.prefix_append_right_inj _).mp hpiece
  refine ⟨_, _, hread.drains todo (held ++ piece) hprefix, ?_⟩
  obtain ⟨later, htodo, hrecv, hheld, hshort⟩ := stands_arrived encode todo (held ++ piece) hprefix
  refine ⟨later, ?_, ?_, hheld, hshort⟩
  · rw [List.append_assoc, ← htodo]
  · rw [List.append_assoc, streamOf_append, List.append_assoc, ← hrecv]

end

end Framing
