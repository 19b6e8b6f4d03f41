import IoTRepublic.Foundation.BracketText
import Mathlib.Tactic.Common

/-!
JSON texts as syntax trees. A tree carries every character of its text: the
blanks, the spelling of its strings and of its unquoted values. Its nodes, in
the order of the text, are the keys, the strings, the unquoted values and the
objects and arrays, each with the place of its text; they begin one behind the
other, and a word ends before the next node begins. The grammar of words is
wider than that of JSON: an unquoted value is any word of printable characters.
-/

namespace JsonText

open BracketText (isBlank)

/-- A printable character that is none of the brackets, the quote, the backslash, the colon and
the comma. -/
def isBare (c : UInt8) : Bool :=
  32 < c && c < 127 && !(c == 123 || c == 125 || c == 91 || c == 93 || c == 34 || c == 92 ||
    c == 58 || c == 44)

/-- What may stand between quotes: no terminator, and a quote or a backslash only behind a
backslash. -/
def isQuoted : List UInt8 → Bool
  | [] => true
  | [c] => c != 0 && c != 34 && c != 92
  | c :: d :: rest =>
    if c = 92 then d != 0 && isQuoted rest else c != 0 && c != 34 && isQuoted (d :: rest)

abbrev Blank := { text : List UInt8 // ∀ c ∈ text, isBlank c }

theorem isBlank_nil : ∀ c ∈ ([] : List UInt8), isBlank c := by
  intro c hc
  cases hc

def noBlank : Blank := ⟨[], isBlank_nil⟩

abbrev Bare := { text : List UInt8 // text ≠ [] ∧ ∀ c ∈ text, isBare c }

abbrev Quoted := { text : List UInt8 // isQuoted text }

inductive Kind
  | primitive
  | object
  | array
  | string
  deriving DecidableEq

/-- A key, a value or a container in a text, with the number of its own members. -/
structure Node where
  kind : Kind
  start : ℕ
  text : List UInt8
  size : ℕ
  deriving DecidableEq

def Node.stop (n : Node) : ℕ := n.start + n.text.length

def Node.isWord (n : Node) : Prop := n.kind = .string ∨ n.kind = .primitive

/-- What stands in front of a value: in an object its key. -/
inductive Label : Bool → Type
  | key (text : Quoted) (before behind : Blank) : Label true
  | none : Label false

/-- A value, or the members of an object (`keyed`) or the elements of an array. -/
inductive Part
  | value
  | items (keyed : Bool)

inductive Json : Part → Type
  | primitive (text : Bare) : Json .value
  | string (text : Quoted) : Json .value
  | container (keyed : Bool) (blank : Blank) (items : Json (.items keyed)) : Json .value
  | nil (keyed : Bool) : Json (.items keyed)
  | cons {keyed : Bool} (lead : Blank) (label : Label keyed) (value : Json .value) (trail : Blank)
      (rest : Json (.items keyed)) : Json (.items keyed)

abbrev Value := Json .value

/-- A text of one value, with blanks around it. -/
structure Document where
  lead : Blank
  value : Value
  trail : Blank

def opening (keyed : Bool) : UInt8 := if keyed then 123 else 91

def closing (keyed : Bool) : UInt8 := if keyed then 125 else 93

def containerKind (keyed : Bool) : Kind := if keyed then .object else .array

namespace Label

variable {keyed : Bool}

def render : Label keyed → List UInt8
  | key text before behind => 34 :: (text.val ++ 34 :: (before.val ++ 58 :: behind.val))
  | none => []

def nodes (pos : ℕ) : Label keyed → List Node
  | key text _ _ => [⟨.string, pos + 1, text.val, 1⟩]
  | none => []

theorem nodes_inside (label : Label keyed) {pos : ℕ} {n : Node} (hn : n ∈ label.nodes pos) :
    pos < n.start ∧ n.stop + 1 < pos + label.render.length := by
  cases label with
  | key text before behind =>
    obtain rfl := List.mem_singleton.mp hn
    simp only [Node.stop, Label.render, List.length_cons, List.length_append]
    omega
  | none => cases hn

end Label

namespace Json

variable {p : Part} {keyed : Bool}

/-- The comma in front of the items that follow, if there are any. -/
def sep : Json (.items keyed) → List UInt8
  | nil _ => []
  | cons .. => [44]

def render : {p : Part} → Json p → List UInt8
  | _, primitive text => text.val
  | _, string text => 34 :: (text.val ++ [34])
  | _, container keyed blank items =>
    opening keyed :: (blank.val ++ (items.render ++ [closing keyed]))
  | _, nil _ => []
  | _, cons lead label value trail rest =>
    lead.val ++ (label.render ++ (value.render ++ (trail.val ++ (rest.sep ++ rest.render))))

def count : {p : Part} → Json p → ℕ
  | _, cons _ _ _ _ rest => rest.count + 1
  | _, _ => 0

/-- Where the value of the first item begins. -/
def valuePos (pos : ℕ) (lead : Blank) (label : Label keyed) : ℕ :=
  pos + lead.val.length + label.render.length

/-- Where the items behind the first one begin. -/
def restPos (pos : ℕ) (lead : Blank) (label : Label keyed) (value : Value) (trail : Blank)
    (rest : Json (.items keyed)) : ℕ :=
  valuePos pos lead label + value.render.length + trail.val.length + rest.sep.length

/-- The nodes of a tree whose text begins at `pos`. -/
def nodes : {p : Part} → Json p → ℕ → List Node
  | _, primitive text, pos => [⟨.primitive, pos, text.val, 0⟩]
  | _, string text, pos => [⟨.string, pos + 1, text.val, 0⟩]
  | _, container keyed blank items, pos =>
    ⟨containerKind keyed, pos, (container keyed blank items).render, items.count⟩ ::
      items.nodes (pos + 1 + blank.val.length)
  | _, nil _, _ => []
  | _, cons lead label value trail rest, pos =>
    label.nodes (pos + lead.val.length) ++ (value.nodes (valuePos pos lead label) ++
      rest.nodes (restPos pos lead label value trail rest))

/-- The values in a tree, each with its place. -/
def subvalues : {p : Part} → Json p → ℕ → List (Value × ℕ)
  | _, primitive text, pos => [(primitive text, pos)]
  | _, string text, pos => [(string text, pos)]
  | _, container keyed blank items, pos =>
    (container keyed blank items, pos) :: items.subvalues (pos + 1 + blank.val.length)
  | _, nil _, _ => []
  | _, cons lead label value trail rest, pos =>
    value.subvalues (valuePos pos lead label) ++
      rest.subvalues (restPos pos lead label value trail rest)

/-- The node of a value itself, which comes first of its nodes. -/
def root : Value → ℕ → Node
  | primitive text, pos => ⟨.primitive, pos, text.val, 0⟩
  | string text, pos => ⟨.string, pos + 1, text.val, 0⟩
  | container keyed blank items, pos =>
    ⟨containerKind keyed, pos, (container keyed blank items).render, items.count⟩

/-- The spelling of all keys, strings and unquoted values, in the order of the text. -/
def words : {p : Part} → Json p → List (List UInt8)
  | _, primitive text => [text.val]
  | _, string text => [text.val]
  | _, container _ _ items => items.words
  | _, nil _ => []
  | _, cons _ (.key text _ _) value _ rest => text.val :: (value.words ++ rest.words)
  | _, cons _ .none value _ rest => value.words ++ rest.words

/-- The value of the first member with this key. -/
def find (key : List UInt8) : {p : Part} → Json p → ℕ → Option (Value × ℕ)
  | _, cons lead (.key text before behind) value trail rest, pos =>
    if text.val = key then some (value, valuePos pos lead (.key text before behind))
    else rest.find key (restPos pos lead (.key text before behind) value trail rest)
  | _, _, _ => none

/-- The words in front of the first member with this key. -/
def wordsBefore (key : List UInt8) : {p : Part} → Json p → List (List UInt8)
  | _, cons _ (.key text _ _) value _ rest =>
    if text.val = key then [] else text.val :: (value.words ++ rest.wordsBefore key)
  | _, _ => []

/-- The `k`-th item. -/
def nth : {p : Part} → Json p → ℕ → ℕ → Option (Value × ℕ)
  | _, cons lead label value _ _, pos, 0 => some (value, valuePos pos lead label)
  | _, cons lead label value trail rest, pos, k + 1 =>
    rest.nth (restPos pos lead label value trail rest) k
  | _, _, _, _ => none

/-- The member of an object with this key. -/
def member (key : List UInt8) : Value → ℕ → Option (Value × ℕ)
  | container true blank items, pos => items.find key (pos + 1 + blank.val.length)
  | _, _ => none

/-- The value that a path of keys leads to, through nested objects. -/
def follow : List (List UInt8) → Value → ℕ → Option (Value × ℕ)
  | [], v, pos => some (v, pos)
  | key :: keys, v, pos =>
    match v.member key pos with
    | none => none
    | some (w, q) => follow keys w q

/-- The items with another value for the first member with this key. -/
def modify (key : List UInt8) (f : Value → Value) : {p : Part} → Json p → Json p
  | _, cons lead (.key text before behind) value trail rest =>
    if text.val = key then cons lead (.key text before behind) (f value) trail rest
    else cons lead (.key text before behind) value trail (rest.modify key f)
  | _, j => j

/-- A new value at the end of a path of keys. -/
def assign (new : Value) : List (List UInt8) → Value → Value
  | [], _ => new
  | key :: keys, container true blank items =>
    container true blank (items.modify key (assign new keys))
  | _, v => v

@[simp] theorem render_cons (lead : Blank) (label : Label keyed) (value : Value) (trail : Blank)
    (rest : Json (.items keyed)) : (cons lead label value trail rest).render =
      lead.val ++ (label.render ++ (value.render ++ (trail.val ++ (rest.sep ++ rest.render)))) :=
  rfl

theorem length_render_cons (pos : ℕ) (lead : Blank) (label : Label keyed) (value : Value)
    (trail : Blank) (rest : Json (.items keyed)) :
    pos + (cons lead label value trail rest).render.length =
      restPos pos lead label value trail rest + rest.render.length := by
  simp only [render_cons, List.length_append, restPos, valuePos]
  omega

/-- The text of a node stands where the node says. -/
theorem nodes_place (j : Json p) {pos : ℕ} {n : Node} (hn : n ∈ j.nodes pos) :
    ∃ front behind, j.render = front ++ (n.text ++ behind) ∧ n.start = pos + front.length := by
  induction j generalizing pos with
  | primitive text =>
    obtain rfl := List.mem_singleton.mp hn
    exact ⟨[], [], by simp [render], rfl⟩
  | string text =>
    obtain rfl := List.mem_singleton.mp hn
    exact ⟨[34], [34], by simp [render], rfl⟩
  | container keyed blank items ih =>
    rcases List.mem_cons.mp hn with rfl | hn
    · exact ⟨[], [], by simp, rfl⟩
    · obtain ⟨front, behind, hrender, hstart⟩ := ih hn
      refine ⟨opening keyed :: (blank.val ++ front), behind ++ [closing keyed], ?_, ?_⟩
      · simp [render, hrender]
      · rw [hstart, List.length_cons, List.length_append]
        omega
  | nil => cases hn
  | cons lead label value trail rest ihvalue ihrest =>
    rcases List.mem_append.mp hn with hn | hn
    · cases label with
      | key text before behind =>
        obtain rfl := List.mem_singleton.mp hn
        exact ⟨lead.val ++ [34], _, by simp [Label.render]; rfl, by simp; omega⟩
      | none => cases hn
    rcases List.mem_append.mp hn with hn | hn
    · obtain ⟨front, behind, hrender, hstart⟩ := ihvalue hn
      refine ⟨lead.val ++ (label.render ++ front), _, by simp [hrender]; rfl, ?_⟩
      rw [hstart, valuePos]
      simp only [List.length_append]
      omega
    · obtain ⟨front, behind, hrender, hstart⟩ := ihrest hn
      refine ⟨lead.val ++ (label.render ++ (value.render ++ (trail.val ++ (rest.sep ++ front)))),
        behind, by simp [hrender], ?_⟩
      rw [hstart, restPos, valuePos]
      simp only [List.length_append]
      omega

theorem nodes_inside (j : Json p) {pos : ℕ} {n : Node} (hn : n ∈ j.nodes pos) :
    pos ≤ n.start ∧ n.stop ≤ pos + j.render.length := by
  obtain ⟨front, behind, hrender, hstart⟩ := j.nodes_place hn
  rw [hrender, List.length_append, List.length_append, Node.stop]
  omega

/-- The items that hold a node have a comma in front of them. -/
theorem sep_length (rest : Json (.items keyed)) {pos : ℕ} {n : Node} (hn : n ∈ rest.nodes pos) :
    rest.sep.length = 1 := by
  cases rest with
  | nil => cases hn
  | cons => rfl

/-- One node begins behind the other, and outside it if it is a word. -/
def Ahead (n m : Node) : Prop := n.start < m.start ∧ (n.isWord → n.stop < m.start)

theorem nodes_ahead (j : Json p) (pos : ℕ) : (j.nodes pos).Pairwise Ahead := by
  induction j generalizing pos with
  | primitive text => exact List.pairwise_singleton _ _
  | string text => exact List.pairwise_singleton _ _
  | container keyed blank items ih =>
    refine List.pairwise_cons.mpr ⟨?_, ih _⟩
    intro m hm
    obtain ⟨hstart, -⟩ := items.nodes_inside hm
    refine ⟨by simp only; omega, ?_⟩
    intro hword
    cases keyed <;> simp [Node.isWord, containerKind] at hword
  | nil => exact List.Pairwise.nil
  | cons lead label value trail rest ihvalue ihrest =>
    refine List.pairwise_append.mpr ⟨?_, List.pairwise_append.mpr ⟨ihvalue _, ihrest _, ?_⟩, ?_⟩
    · cases label with
      | key text before behind => exact List.pairwise_singleton _ _
      | none => exact List.Pairwise.nil
    · intro n hn m hm
      have hstop := (value.nodes_inside hn).2
      have hstart := (rest.nodes_inside hm).1
      have hsep := rest.sep_length hm
      rw [restPos, hsep] at hstart
      refine ⟨?_, fun _ => by omega⟩
      have hle : n.start ≤ n.stop := Nat.le_add_right ..
      omega
    · intro n hn m hm
      obtain ⟨-, hstop⟩ := label.nodes_inside hn
      have hstart : valuePos pos lead label ≤ m.start := by
        rcases List.mem_append.mp hm with hm | hm
        · exact (value.nodes_inside hm).1
        · have hle := (rest.nodes_inside hm).1
          rw [restPos] at hle
          omega
      rw [valuePos] at hstart
      refine ⟨?_, fun _ => by omega⟩
      have hle : n.start ≤ n.stop := Nat.le_add_right ..
      omega

/-- A value in a tree is a block of its text and a block of its nodes; the nodes in front of the
block begin in front of the value, and those behind it begin behind the value. -/
theorem subvalues_block (j : Json p) {pos q : ℕ} {w : Value} (hw : (w, q) ∈ j.subvalues pos) :
    (∃ front behind, j.render = front ++ (w.render ++ behind) ∧ q = pos + front.length) ∧
      ∃ front behind, j.nodes pos = front ++ (w.nodes q ++ behind) ∧
        (∀ n ∈ front, n.start < q) ∧ ∀ n ∈ behind, q + w.render.length < n.start := by
  have hself : ∀ {v : Value} {pos : ℕ}, (w, q) = (v, pos) →
      (∃ front behind, v.render = front ++ (w.render ++ behind) ∧ q = pos + front.length) ∧
        ∃ front behind, v.nodes pos = front ++ (w.nodes q ++ behind) ∧
          (∀ n ∈ front, n.start < q) ∧ ∀ n ∈ behind, q + w.render.length < n.start := by
    intro v pos heq
    obtain ⟨rfl, rfl⟩ := Prod.mk.inj heq
    exact ⟨⟨[], [], by simp, rfl⟩, [], [], by simp, by simp, by simp⟩
  induction j generalizing pos with
  | primitive text => exact hself (List.mem_singleton.mp hw)
  | string text => exact hself (List.mem_singleton.mp hw)
  | container keyed blank items ih =>
    rcases List.mem_cons.mp hw with heq | hw
    · exact hself heq
    · obtain ⟨⟨front, behind, hrender, hq⟩, before, after, hnodes, hbefore, hafter⟩ := ih hw
      refine ⟨⟨opening keyed :: (blank.val ++ front), behind ++ [closing keyed], ?_, ?_⟩,
        ⟨containerKind keyed, pos, (container keyed blank items).render, items.count⟩ :: before,
        after, ?_, ?_, hafter⟩
      · simp [render, hrender]
      · rw [hq, List.length_cons, List.length_append]
        omega
      · simp [nodes, hnodes]
      · intro n hn
        rcases List.mem_cons.mp hn with rfl | hn
        · simp only
          omega
        · exact hbefore n hn
  | nil => cases hw
  | cons lead label value trail rest ihvalue ihrest =>
    rcases List.mem_append.mp hw with hw | hw
    · obtain ⟨⟨front, behind, hrender, hq⟩, before, after, hnodes, hbefore, hafter⟩ := ihvalue hw
      refine ⟨⟨lead.val ++ (label.render ++ front), _, by simp [hrender]; rfl, ?_⟩,
        label.nodes (pos + lead.val.length) ++ before,
        after ++ rest.nodes (restPos pos lead label value trail rest), ?_, ?_, ?_⟩
      · rw [hq, valuePos]
        simp only [List.length_append]
        omega
      · simp [nodes, hnodes]
      · intro n hn
        rcases List.mem_append.mp hn with hn | hn
        · have hstop := (label.nodes_inside hn).2
          have hle : n.start ≤ n.stop := Nat.le_add_right ..
          rw [valuePos] at hq
          omega
        · exact hbefore n hn
      · intro n hn
        rcases List.mem_append.mp hn with hn | hn
        · exact hafter n hn
        · have hstart := (rest.nodes_inside hn).1
          have hsep := rest.sep_length hn
          have hlength := congrArg List.length hrender
          rw [List.length_append, List.length_append] at hlength
          rw [restPos, hsep] at hstart
          omega
    · obtain ⟨⟨front, behind, hrender, hq⟩, before, after, hnodes, hbefore, hafter⟩ := ihrest hw
      refine ⟨⟨lead.val ++ (label.render ++ (value.render ++ (trail.val ++ (rest.sep ++ front)))),
        behind, by simp [hrender], ?_⟩,
        label.nodes (pos + lead.val.length) ++
          (value.nodes (valuePos pos lead label) ++ before), after, ?_, ?_, hafter⟩
      · rw [hq, restPos, valuePos]
        simp only [List.length_append]
        omega
      · simp [nodes, hnodes]
      · have hle : valuePos pos lead label + value.render.length ≤ q := by
          rw [restPos] at hq
          omega
        intro n hn
        rcases List.mem_append.mp hn with hn | hn
        · have hstop := (label.nodes_inside hn).2
          have hle' : n.start ≤ n.stop := Nat.le_add_right ..
          rw [valuePos] at hle
          omega
        rcases List.mem_append.mp hn with hn | hn
        · obtain ⟨-, hstop⟩ := value.nodes_inside hn
          have hstart : n.start ≤ n.stop := Nat.le_add_right ..
          have hsep : rest.sep.length = 1 := by
            cases rest with
            | nil => cases hw
            | cons => rfl
          rw [restPos, hsep] at hq
          omega
        · exact hbefore n hn

theorem nodes_eq_root (v : Value) (pos : ℕ) : ∃ behind, v.nodes pos = v.root pos :: behind := by
  cases v with
  | primitive text => exact ⟨[], rfl⟩
  | string text => exact ⟨[], rfl⟩
  | container keyed blank items => exact ⟨_, rfl⟩

/-- Every node of a value begins inside the value. -/
theorem start_le_root_stop (v : Value) {pos : ℕ} {n : Node} (hn : n ∈ v.nodes pos) :
    n.start ≤ (v.root pos).stop := by
  have hle : n.start ≤ n.stop := Nat.le_add_right ..
  cases v with
  | primitive text =>
    obtain rfl := List.mem_singleton.mp hn
    exact hle
  | string text =>
    obtain rfl := List.mem_singleton.mp hn
    exact hle
  | container keyed blank items =>
    exact Nat.le_trans hle (nodes_inside _ hn).2

theorem root_mem (v : Value) (pos : ℕ) : v.root pos ∈ v.nodes pos := by
  obtain ⟨behind, hnodes⟩ := v.nodes_eq_root pos
  rw [hnodes]
  exact List.mem_cons_self

/-- The words of a tree are the texts of its nodes that are words. -/
theorem mem_words (j : Json p) (pos : ℕ) (text : List UInt8) :
    text ∈ j.words ↔ ∃ n ∈ j.nodes pos, n.isWord ∧ n.text = text := by
  induction j generalizing pos with
  | primitive word =>
    simp [words, nodes, Node.isWord, eq_comm]
  | string word =>
    simp [words, nodes, Node.isWord, eq_comm]
  | container keyed blank items ih =>
    rw [words, ih (pos + 1 + blank.val.length), nodes]
    simp only [List.mem_cons, exists_eq_or_imp]
    have hnot : ¬ Node.isWord ⟨containerKind keyed, pos, (container keyed blank items).render,
        items.count⟩ := by
      cases keyed <;> simp [Node.isWord, containerKind]
    simp only [hnot, false_and, false_or]
  | nil => simp [words, nodes]
  | cons lead label value trail rest ihvalue ihrest =>
    have hsplit : text ∈ value.words ++ rest.words ↔
        ∃ n ∈ value.nodes (valuePos pos lead label) ++
          rest.nodes (restPos pos lead label value trail rest), n.isWord ∧ n.text = text := by
      rw [List.mem_append, ihvalue (valuePos pos lead label),
        ihrest (restPos pos lead label value trail rest)]
      simp only [List.mem_append, or_and_right, exists_or]
    cases label with
    | key word before behind =>
      rw [words, List.mem_cons, hsplit, nodes]
      simp only [Label.nodes, List.singleton_append, List.mem_cons, exists_eq_or_imp]
      simp [Node.isWord, eq_comm]
    | none =>
      rw [words, hsplit, nodes]
      rfl

theorem self_mem_subvalues (v : Value) (pos : ℕ) : (v, pos) ∈ v.subvalues pos := by
  cases v <;> exact List.mem_cons_self

/-- Where the first member with a key stands among the nodes, with the words in front of it. -/
theorem find_nodes (j : Json p) {key : List UInt8} {pos q : ℕ} {w : Value}
    (hfind : j.find key pos = some (w, q)) :
    (w, q) ∈ j.subvalues pos ∧
      ∃ front behind start, j.nodes pos =
          front ++ ⟨.string, start, key, 1⟩ :: (w.nodes q ++ behind) ∧
        ∀ text, text ∈ j.wordsBefore key ↔ ∃ n ∈ front, n.isWord ∧ n.text = text := by
  induction j generalizing pos with
  | primitive text => cases hfind
  | string text => cases hfind
  | container keyed blank items => cases hfind
  | nil => cases hfind
  | cons lead label value trail rest ihvalue ihrest =>
    cases label with
    | none => cases hfind
    | key word before behind =>
      rw [find] at hfind
      by_cases hkey : word.val = key
      · rw [if_pos hkey] at hfind
        obtain ⟨rfl, rfl⟩ := Prod.mk.inj (Option.some.inj hfind)
        refine ⟨List.mem_append_left _ (self_mem_subvalues ..), [], rest.nodes (restPos pos lead
          (.key word before behind) value trail rest), pos + lead.val.length + 1, ?_, ?_⟩
        · rw [nodes, Label.nodes, hkey]
          rfl
        · intro text
          rw [wordsBefore, if_pos hkey]
          simp
      · rw [if_neg hkey] at hfind
        obtain ⟨hmem, front, after, start, hnodes, hwords⟩ := ihrest hfind
        refine ⟨List.mem_append_right _ hmem, ⟨.string, pos + lead.val.length + 1, word.val, 1⟩ ::
          (value.nodes (valuePos pos lead (.key word before behind)) ++ front), after, start,
          ?_, ?_⟩
        · rw [nodes, Label.nodes, hnodes]
          simp
        · intro text
          rw [wordsBefore, if_neg hkey, List.mem_cons, List.mem_append, hwords,
            mem_words value (valuePos pos lead (.key word before behind))]
          simp only [List.mem_cons, List.mem_append, or_and_right, exists_or]
          simp [Node.isWord, eq_comm]

/-- The text around a member stays when the member gets another value. -/
theorem find_modify (j : Json p) {key : List UInt8} {pos q : ℕ} {w : Value}
    (hfind : j.find key pos = some (w, q)) :
    ∃ front behind, j.render = front ++ (w.render ++ behind) ∧ q = pos + front.length ∧
      ∀ f, (j.modify key f).render = front ++ ((f w).render ++ behind) := by
  have hsep : ∀ {keyed : Bool} (rest : Json (.items keyed)) (f : Value → Value),
      (rest.modify key f).sep = rest.sep := by
    intro keyed rest f
    cases rest with
    | nil => rfl
    | cons lead label value trail rest =>
      cases label with
      | none => rfl
      | key text before behind =>
        rw [modify]
        split <;> rfl
  induction j generalizing pos with
  | primitive text => cases hfind
  | string text => cases hfind
  | container keyed blank items => cases hfind
  | nil => cases hfind
  | cons lead label value trail rest ihvalue ihrest =>
    cases label with
    | none => cases hfind
    | key word before behind =>
      rw [find] at hfind
      by_cases hkey : word.val = key
      · rw [if_pos hkey] at hfind
        obtain ⟨rfl, rfl⟩ := Prod.mk.inj (Option.some.inj hfind)
        refine ⟨lead.val ++ (Label.key word before behind).render,
          trail.val ++ (rest.sep ++ rest.render), ?_, ?_, fun f => ?_⟩
        · rw [render_cons, List.append_assoc]
        · rw [valuePos, List.length_append, Nat.add_assoc]
        · rw [modify, if_pos hkey, render_cons, List.append_assoc]
      · rw [if_neg hkey] at hfind
        obtain ⟨front, after, hrender, hq, hmodify⟩ := ihrest hfind
        refine ⟨lead.val ++ ((Label.key word before behind).render ++ (value.render ++
          (trail.val ++ (rest.sep ++ front)))), after, ?_, ?_, fun f => ?_⟩
        · rw [render_cons, hrender]
          simp only [List.append_assoc]
        · rw [hq, restPos, valuePos]
          simp only [List.length_append]
          omega
        · rw [modify, if_neg hkey, render_cons, hmodify, hsep]
          simp only [List.append_assoc]

/-- The text around the value that a path leads to stays when another value is put there. -/
theorem follow_assign {keys : List (List UInt8)} {v w : Value} {pos q : ℕ}
    (h : follow keys v pos = some (w, q)) :
    ∃ front behind, v.render = front ++ (w.render ++ behind) ∧ q = pos + front.length ∧
      ∀ new, (assign new keys v).render = front ++ (new.render ++ behind) := by
  induction keys generalizing v pos with
  | nil =>
    obtain ⟨rfl, rfl⟩ := Prod.mk.inj (Option.some.inj h)
    exact ⟨[], [], by simp, rfl, fun new => by simp [assign]⟩
  | cons key keys ih =>
    rw [follow] at h
    cases v with
    | primitive text => cases h
    | string text => cases h
    | container keyed blank items =>
      cases keyed with
      | false => cases h
      | true =>
        rw [member] at h
        cases hfind : items.find key (pos + 1 + blank.val.length) with
        | none =>
          rw [hfind] at h
          cases h
        | some found =>
          obtain ⟨x, r⟩ := found
          rw [hfind] at h
          obtain ⟨front, behind, hrender, hr, hmodify⟩ := find_modify items hfind
          obtain ⟨front', behind', hrender', hq, hassign⟩ := ih h
          refine ⟨opening true :: (blank.val ++ (front ++ front')),
            behind' ++ (behind ++ [closing true]), ?_, ?_, fun new => ?_⟩
          · rw [render, hrender, hrender']
            simp only [List.cons_append, List.append_assoc]
          · rw [hq, hr]
            simp only [List.length_cons, List.length_append]
            omega
          · rw [assign, render, hmodify, hassign]
            simp only [List.cons_append, List.append_assoc]

theorem nth_isSome_iff (j : Json p) (pos k : ℕ) : (j.nth pos k).isSome ↔ k < j.count := by
  induction j generalizing pos k with
  | primitive text => simp [nth, count]
  | string text => simp [nth, count]
  | container keyed blank items => simp [nth, count]
  | nil => simp [nth, count]
  | cons lead label value trail rest ihvalue ihrest =>
    cases k with
    | zero => simp [nth, count]
    | succ k =>
      rw [nth, ihrest, count]
      omega

theorem count_le_nodes (j : Json p) (pos : ℕ) : j.count ≤ (j.nodes pos).length := by
  induction j generalizing pos with
  | primitive text => exact Nat.zero_le _
  | string text => exact Nat.zero_le _
  | container keyed blank items => exact Nat.zero_le _
  | nil => exact Nat.zero_le _
  | cons lead label value trail rest ihvalue ihrest =>
    have hrest := ihrest (restPos pos lead label value trail rest)
    obtain ⟨tail, htail⟩ := value.nodes_eq_root (valuePos pos lead label)
    simp only [count, nodes, htail, List.length_append, List.length_cons]
    omega

theorem nth_mem (j : Json p) {pos k q : ℕ} {w : Value} (h : j.nth pos k = some (w, q)) :
    (w, q) ∈ j.subvalues pos := by
  induction j generalizing pos k with
  | primitive text => cases h
  | string text => cases h
  | container keyed blank items => cases h
  | nil => cases h
  | cons lead label value trail rest ihvalue ihrest =>
    cases k with
    | zero =>
      obtain ⟨rfl, rfl⟩ := Prod.mk.inj (Option.some.inj h)
      exact List.mem_append_left _ (self_mem_subvalues ..)
    | succ k => exact List.mem_append_right _ (ihrest h)

/-- The words in front of the member with this key. -/
def wordsBeforeMember (key : List UInt8) : Value → List (List UInt8)
  | container true _ items => items.wordsBefore key
  | _ => []

/-- No word in front of a member on the path is spelled like the key of that member. -/
def Clear : List (List UInt8) → Value → ℕ → Prop
  | [], _, _ => True
  | key :: keys, v, pos => key ∉ v.wordsBeforeMember key ∧
      ∀ w q, v.member key pos = some (w, q) → Clear keys w q

/-- Where a member stands among the nodes of its object. -/
theorem member_nodes {v w : Value} {key : List UInt8} {pos q : ℕ}
    (h : v.member key pos = some (w, q)) :
    (w, q) ∈ v.subvalues pos ∧ (v.root pos).kind = .object ∧
      ∃ front behind start, v.nodes pos =
          v.root pos :: front ++ ⟨.string, start, key, 1⟩ :: (w.nodes q ++ behind) ∧
        ∀ text, text ∈ v.wordsBeforeMember key ↔ ∃ n ∈ front, n.isWord ∧ n.text = text := by
  cases v with
  | primitive text => cases h
  | string text => cases h
  | container keyed blank items =>
    cases keyed with
    | false => cases h
    | true =>
      obtain ⟨hmem, front, behind, start, hnodes, hwords⟩ := find_nodes items h
      refine ⟨List.mem_cons_of_mem _ hmem, rfl, front, behind, start, ?_, hwords⟩
      rw [nodes, hnodes]
      rfl

/-- A value in a value in a tree is in the tree. -/
theorem subvalues_trans (j : Json p) {a b : Value} {pos q r : ℕ} (ha : (a, r) ∈ b.subvalues q)
    (hb : (b, q) ∈ j.subvalues pos) : (a, r) ∈ j.subvalues pos := by
  have hself : ∀ {v : Value} {pos : ℕ}, (b, q) = (v, pos) → (a, r) ∈ v.subvalues pos := by
    intro v pos heq
    obtain ⟨rfl, rfl⟩ := Prod.mk.inj heq
    exact ha
  induction j generalizing pos with
  | primitive text => exact hself (List.mem_singleton.mp hb)
  | string text => exact hself (List.mem_singleton.mp hb)
  | container keyed blank items ih =>
    rcases List.mem_cons.mp hb with heq | hb
    · exact hself heq
    · exact List.mem_cons_of_mem _ (ih hb)
  | nil => cases hb
  | cons lead label value trail rest ihvalue ihrest =>
    rcases List.mem_append.mp hb with hb | hb
    · exact List.mem_append_left _ (ihvalue hb)
    · exact List.mem_append_right _ (ihrest hb)

theorem follow_mem {keys : List (List UInt8)} {v w : Value} {pos q : ℕ}
    (h : follow keys v pos = some (w, q)) : (w, q) ∈ v.subvalues pos := by
  induction keys generalizing v pos with
  | nil =>
    obtain ⟨rfl, rfl⟩ := Prod.mk.inj (Option.some.inj h)
    exact self_mem_subvalues ..
  | cons key keys ih =>
    rw [follow] at h
    cases hmember : v.member key pos with
    | none =>
      rw [hmember] at h
      cases h
    | some found =>
      obtain ⟨x, r⟩ := found
      rw [hmember] at h
      exact subvalues_trans v (ih h) (member_nodes hmember).1

end Json

theorem ne_zero_of_isBlank {c : UInt8} (h : isBlank c) : c ≠ 0 := by
  rintro rfl
  cases h

theorem ne_zero_of_isBare {c : UInt8} (h : isBare c) : c ≠ 0 := by
  rintro rfl
  cases h

theorem zero_notMem_quoted {text : List UInt8} (h : isQuoted text) : (0 : UInt8) ∉ text := by
  fun_induction isQuoted text with
  | case1 => exact List.not_mem_nil
  | case2 c =>
    simp only [Bool.and_eq_true, bne_iff_ne, ne_eq] at h
    rw [List.mem_singleton]
    exact fun hc => h.1.1 hc.symm
  | case3 d rest ih =>
    rw [Bool.and_eq_true, bne_iff_ne] at h
    simp only [List.mem_cons, not_or]
    exact ⟨by decide, fun hd => h.1 hd.symm, ih h.2⟩
  | case4 c d rest _ ih =>
    rw [Bool.and_eq_true, Bool.and_eq_true, bne_iff_ne] at h
    rw [List.mem_cons, not_or]
    exact ⟨fun hc => h.1.1 hc.symm, ih h.2⟩

theorem Blank.zero_notMem (blank : Blank) : (0 : UInt8) ∉ blank.val :=
  fun h => ne_zero_of_isBlank (blank.property 0 h) rfl

namespace Json

variable {p : Part} {keyed : Bool}

theorem zero_notMem_render (j : Json p) : (0 : UInt8) ∉ j.render := by
  induction j with
  | primitive text => exact fun h => ne_zero_of_isBare (text.property.2 0 h) rfl
  | string text =>
    have htext := zero_notMem_quoted text.property
    simp [render, htext]
  | container keyed blank items ih =>
    have hblank := Blank.zero_notMem blank
    cases keyed <;> simp [render, opening, closing, hblank, ih]
  | nil => exact List.not_mem_nil
  | cons lead label value trail rest ihvalue ihrest =>
    have hlabel : (0 : UInt8) ∉ label.render := by
      cases label with
      | key text before behind =>
        have htext := zero_notMem_quoted text.property
        simp [Label.render, htext, Blank.zero_notMem before, Blank.zero_notMem behind]
      | none => exact List.not_mem_nil
    have hsep : (0 : UInt8) ∉ rest.sep := by
      cases rest <;> simp [sep]
    simp [Blank.zero_notMem lead, Blank.zero_notMem trail, hlabel, hsep, ihvalue, ihrest]

end Json

namespace Document

def text (d : Document) : List UInt8 := d.lead.val ++ (d.value.render ++ d.trail.val)

def nodes (d : Document) : List Node := d.value.nodes d.lead.val.length

theorem zero_notMem_text (d : Document) : (0 : UInt8) ∉ d.text := by
  simp [text, Blank.zero_notMem, Json.zero_notMem_render]

/-- The text of a node stands where the node says. -/
theorem nodes_place (d : Document) {n : Node} (hn : n ∈ d.nodes) :
    ∃ front behind, d.text = front ++ (n.text ++ behind) ∧ n.start = front.length := by
  obtain ⟨front, behind, hrender, hstart⟩ := d.value.nodes_place hn
  refine ⟨d.lead.val ++ front, behind ++ d.trail.val, ?_, ?_⟩
  · simp [text, hrender]
  · rw [hstart, List.length_append]

end Document

end JsonText
