import Mathlib.Data.List.Chain
import IoTRepublic.PacketEncoding

/-!
The fields of a packet. Every field has a path of keys from the outermost object. The
search for a field in its object also meets the values in front of it, and the search for
`Data` in the whole packet meets all other values: it ends at the value of the field `Data`
if none of them is spelled `Data`, and otherwise at a key.
-/
namespace IoTRepublic.PacketFields

open JsonText JsonTable PacketTemplate TemplateText
open Package (Byte ascii)
open Lookup (hitOf)
open KeyPath (rangeAt)

/-- The values of a packet, in the order of its text. -/
inductive Field
  | magicNumber
  | version
  | dataLen
  | hLen
  | ipSrc
  | ipDes
  | headerChecksum
  | flag
  | data
  deriving DecidableEq

namespace Field

/-- The key of the value. -/
def name : Field → Name
  | magicNumber => ⟨ascii "magic number", by decide⟩
  | version => ⟨ascii "Version", by decide⟩
  | dataLen => ⟨ascii "Data_Len", by decide⟩
  | hLen => ⟨ascii "H_Len", by decide⟩
  | ipSrc => ⟨ascii "IP_Src", by decide⟩
  | ipDes => ⟨ascii "IP_Des", by decide⟩
  | headerChecksum => ⟨ascii "Header_Checksum", by decide⟩
  | flag => ⟨ascii "Flag", by decide⟩
  | data => ⟨ascii "Data", by decide⟩

/-- The values in front of it that a search in its object meets. -/
def ahead : Field → List Field
  | magicNumber | version => []
  | dataLen => [version]
  | hLen => [version, dataLen]
  | ipSrc => [version, dataLen, hLen]
  | ipDes => [version, dataLen, hLen, ipSrc]
  | headerChecksum => [version, dataLen, hLen, ipSrc, ipDes]
  | flag => [version, dataLen, hLen, ipSrc, ipDes, headerChecksum]
  | data => [version, dataLen, hLen, ipSrc, ipDes, headerChecksum, flag]

end Field

def segment : Name := ⟨ascii "UDP Segment", by decide⟩

def header : Name := ⟨ascii "Header", by decide⟩

def Field.path : Field → List (List Byte)
  | .magicNumber => [Field.magicNumber.name]
  | .data => [segment, Field.data.name]
  | f => [segment, header, f.name]

/-- The packet that the table describes, with these values. -/
def packet (vals : Field → Bare) : Members :=
  .leaf Field.magicNumber.name (vals .magicNumber)
    (.object segment
      (.object header
        (.leaf Field.version.name (vals .version)
          (.leaf Field.dataLen.name (vals .dataLen)
            (.leaf Field.hLen.name (vals .hLen)
              (.leaf Field.ipSrc.name (vals .ipSrc)
                (.leaf Field.ipDes.name (vals .ipDes)
                  (.leaf Field.headerChecksum.name (vals .headerChecksum)
                    (.leaf Field.flag.name (vals .flag) .nil)))))))
        (.leaf Field.data.name (vals .data) .nil))
      .nil)

/-- No value in front of the field is spelled like its key. -/
def Reached (vals : Field → Bare) (f : Field) : Prop :=
  ∀ g ∈ f.ahead, (vals g).val ≠ f.name.val

section

variable (vals : Field → Bare)

theorem describes : Describes initTokenInfo (packet vals).table := by
  constructor
  · rfl
  · rfl
  · rfl
  · rfl
  · rfl

theorem follow_path (f : Field) : ∃ q, Json.follow f.path (packet vals).document.value
    (packet vals).document.lead.val.length = some (.primitive (vals f), q) := by
  cases f <;> exact ⟨_, rfl⟩

theorem assign_path (f : Field) (v : Bare) :
    CSharpDocument.assign (packet vals).document f.path v =
      (packet (Function.update vals f v)).document := by
  cases f <;> rfl


theorem ne_segment (v : Bare) : segment.val ≠ v.val := by
  intro h
  have hblank : isBare 32 := v.property.2 32 (h ▸ by decide)
  cases hblank

theorem name_ne_of_ahead {f g : Field} (h : g ∈ f.ahead) : g.name.val ≠ f.name.val := by
  revert h
  cases f <;> cases g <;> decide

/-- The words in front of a field in its object. -/
theorem notMem_ahead {f : Field} (h : Reached vals f) :
    f.name.val ∉ f.ahead.flatMap fun g => [g.name.val, (vals g).val] := by
  intro hmem
  obtain ⟨g, hg, hword⟩ := List.mem_flatMap.mp hmem
  rcases List.mem_cons.mp hword with hname | hvalue
  · exact name_ne_of_ahead hg hname.symm
  · exact h g hg (List.mem_singleton.mp hvalue).symm

theorem segment_notMem : segment.val ∉
    (packet vals).document.value.wordsBeforeMember segment := by
  have hwords : (packet vals).document.value.wordsBeforeMember segment =
      [Field.magicNumber.name.val, (vals .magicNumber).val] := rfl
  rw [hwords, List.mem_cons, List.mem_singleton, not_or]
  exact ⟨by decide, ne_segment _⟩

/-- The objects around a field are found. -/
theorem clear_dropLast (f : Field) : Json.Clear f.path.dropLast (packet vals).document.value
    (packet vals).document.lead.val.length := by
  cases f with
  | magicNumber => trivial
  | data => exact ⟨segment_notMem vals, fun _ _ _ => trivial⟩
  | _ =>
    refine ⟨segment_notMem vals, fun w q hw => ?_⟩
    obtain ⟨rfl, rfl⟩ := Prod.mk.inj (Option.some.inj hw)
    exact ⟨List.not_mem_nil, fun _ _ _ => trivial⟩

/-- A field is found if no value in front of it is spelled like its key. -/
theorem clear_path {f : Field} (h : Reached vals f) :
    Json.Clear f.path (packet vals).document.value (packet vals).document.lead.val.length := by
  have hkey := notMem_ahead vals h
  cases f with
  | magicNumber => exact ⟨List.not_mem_nil, fun _ _ _ => trivial⟩
  | data =>
    refine ⟨segment_notMem vals, fun w q hw => ?_⟩
    obtain ⟨rfl, rfl⟩ := Prod.mk.inj (Option.some.inj hw)
    refine ⟨?_, fun _ _ _ => trivial⟩
    have hne : Field.data.name.val ≠ header.val := by decide
    exact List.not_mem_cons_of_ne_of_not_mem hne hkey
  | _ =>
    refine ⟨segment_notMem vals, fun w q hw => ?_⟩
    obtain ⟨rfl, rfl⟩ := Prod.mk.inj (Option.some.inj hw)
    refine ⟨List.not_mem_nil, fun w q hw => ?_⟩
    obtain ⟨rfl, rfl⟩ := Prod.mk.inj (Option.some.inj hw)
    exact ⟨hkey, fun _ _ _ => trivial⟩

/-- The spelling of a key or a value. -/
def wordOf (n : Node) : Option (List Byte) :=
  match n.kind with
  | .string | .primitive => some n.text
  | _ => none

theorem wordOf_eq_some {n : Node} {text : List Byte} :
    wordOf n = some text ↔ n.isWord ∧ n.text = text := by
  rw [wordOf, Node.isWord]
  cases n.kind <;> simp

/-- The words of a packet in front of the last key, with nothing for an object. -/
def wordsAhead : List (Option (List Byte)) :=
  [none, some Field.magicNumber.name.val, some (vals .magicNumber).val, some segment.val, none,
    some header.val, none] ++ Field.data.ahead.flatMap fun g =>
      [some g.name.val, some (vals g).val]

theorem words_front : ((packet vals).document.nodes.take 21).map wordOf = wordsAhead vals := rfl

theorem words_packet : ((packet vals).document.nodes.take 22).map wordOf =
    wordsAhead vals ++ [some Field.data.name.val] := rfl

theorem data_mem_wordsAhead : some Field.data.name.val ∈ wordsAhead vals ↔
    ∃ f ≠ .data, (vals f).val = Field.data.name.val := by
  constructor
  · intro hmem
    rcases List.mem_append.mp hmem with hfirst | hahead
    · have hvalue : (vals .magicNumber).val = Field.data.name.val := by
        by_contra hne
        have hnone : some Field.data.name.val ∉ [none, some Field.magicNumber.name.val,
            some (vals .magicNumber).val, some segment.val, none, some header.val, none] := by
          simp only [List.mem_cons, List.not_mem_nil, or_false, reduceCtorEq, false_or,
            Option.some.injEq, not_or]
          exact ⟨by decide, Ne.symm hne, by decide, by decide⟩
        exact hnone hfirst
      exact ⟨.magicNumber, nofun, hvalue⟩
    · obtain ⟨g, hg, hword⟩ := List.mem_flatMap.mp hahead
      rcases List.mem_cons.mp hword with hname | hvalue
      · exact absurd (Option.some.inj hname).symm (name_ne_of_ahead hg)
      · refine ⟨g, ?_, (Option.some.inj (List.mem_singleton.mp hvalue)).symm⟩
        rintro rfl
        revert hg
        decide
  · rintro ⟨f, hne, hvalue⟩
    rw [wordsAhead, ← hvalue]
    by_cases hfirst : f = .magicNumber
    · subst hfirst
      simp
    · have hahead : f ∈ Field.data.ahead := by
        cases f with
        | magicNumber => exact absurd rfl hfirst
        | data => exact absurd rfl hne
        | _ => decide
      exact List.mem_append_right _ (List.mem_flatMap.mpr ⟨f, hahead, by simp⟩)

/-- Behind a value stands a key of more than one character. -/
theorem isChain_words : List.IsChain (fun x y : Option (List Byte) =>
    x = some Field.data.name.val → ∃ key, y = some key ∧ 1 < key.length)
      (wordsAhead vals ++ [some Field.data.name.val]) := by
  simp [wordsAhead, Field.ahead]
  refine ⟨?_, ?_, ?_, ?_, ?_, ?_, ?_, ?_, ?_, ?_, ?_, ?_, ?_, ?_, ?_, ?_, ?_, ?_⟩ <;>
    first | decide | exact fun _ => by decide | exact fun h => absurd h (by decide)

theorem nodes_data : ∃ p q, (packet vals).document.nodes =
      (packet vals).document.nodes.take 21 ++
        [⟨.string, p, Field.data.name, 1⟩, Json.root (.primitive (vals .data)) q] ∧
    Json.follow Field.data.path (packet vals).document.value
      (packet vals).document.lead.val.length = some (.primitive (vals .data), q) := by
  have hdrop : ∃ p q, (packet vals).document.nodes.drop 21 =
        [⟨.string, p, Field.data.name, 1⟩, Json.root (.primitive (vals .data)) q] ∧
      Json.follow Field.data.path (packet vals).document.value
        (packet vals).document.lead.val.length = some (.primitive (vals .data), q) :=
    ⟨_, _, rfl, rfl⟩
  obtain ⟨p, q, hnodes, hfollow⟩ := hdrop
  exact ⟨p, q, by rw [← hnodes, List.take_append_drop], hfollow⟩

theorem kind_ne_array {n : Node} (hn : n ∈ (packet vals).document.nodes) : n.kind ≠ .array := by
  have hall : (packet vals).document.nodes.all (fun n => n.kind != .array) = true := rfl
  have hkind := List.all_eq_true.mp hall n hn
  simpa using hkind

/-- Nodes among whose words there is none that is spelled like the key are passed. -/
theorem passed {front : List Node} (hfront : ∀ n ∈ front, n ∈ (packet vals).document.nodes)
    (hwords : some Field.data.name.val ∉ front.map wordOf) :
    ∀ n ∈ front, n.kind ≠ .array ∧ (n.isWord → n.text ≠ Field.data.name.val) := by
  intro n hn
  refine ⟨kind_ne_array vals (hfront n hn), fun hword htext => hwords ?_⟩
  exact List.mem_map.mpr ⟨n, hn, wordOf_eq_some.mpr ⟨hword, htext⟩⟩

/-- The decoder's search ends at the value of `Data` if no other value is spelled `Data`. -/
theorem hitOf_data (h : ∀ f ≠ .data, (vals f).val ≠ Field.data.name.val) :
    ∃ q, hitOf (packet vals).document.text Field.data.name
        (rangeAt (packet vals).document.value (packet vals).document.lead.val.length)
        (tableOf (packet vals).document) =
          .value (tokenOf (Json.root (.primitive (vals .data)) q)) ∧
      Json.follow Field.data.path (packet vals).document.value
        (packet vals).document.lead.val.length = some (.primitive (vals .data), q) := by
  obtain ⟨p, q, hnodes, hfollow⟩ := nodes_data vals
  refine ⟨q, CSharpDocument.hitOf_first rfl hnodes (.inl rfl) rfl (passed vals ?_ ?_), hfollow⟩
  · exact fun n hn => List.mem_of_mem_take hn
  · rw [words_front, data_mem_wordsAhead]
    rintro ⟨f, hne, hvalue⟩
    exact h f hne hvalue

/-- Otherwise it ends at a key. -/
theorem hitOf_other (h : ∃ f ≠ .data, (vals f).val = Field.data.name.val) :
    ∃ m ∈ (packet vals).document.nodes, m.isWord ∧ 1 < m.text.length ∧
      hitOf (packet vals).document.text Field.data.name
        (rangeAt (packet vals).document.value (packet vals).document.lead.val.length)
        (tableOf (packet vals).document) = .value (tokenOf m) := by
  obtain ⟨before, after, hsplit, hbefore⟩ :=
    List.eq_append_cons_of_mem ((data_mem_wordsAhead vals).mpr h)
  obtain ⟨y, more, hmore⟩ := List.exists_cons_of_ne_nil
    (List.append_ne_nil_of_right_ne_nil after (List.cons_ne_nil (some Field.data.name.val) []))
  have hall : wordsAhead vals ++ [some Field.data.name.val] =
      before ++ some Field.data.name.val :: y :: more := by
    rw [hsplit, List.append_assoc, List.cons_append, hmore]
  have hchain := isChain_words vals
  have hwords := words_packet vals
  rw [hall] at hchain hwords
  obtain ⟨key, rfl, hlong⟩ := (List.isChain_append_cons_cons.mp hchain).2.1 rfl
  obtain ⟨front, rest, htake, hfront, hrest⟩ := List.map_eq_append_iff.mp hwords
  obtain ⟨n, rest', rfl, hn, hrest'⟩ := List.map_eq_cons_iff.mp hrest
  obtain ⟨m, back, rfl, hm, -⟩ := List.map_eq_cons_iff.mp hrest'
  have hnodes : (packet vals).document.nodes =
      front ++ n :: m :: (back ++ (packet vals).document.nodes.drop 22) := by
    rw [← List.cons_append, ← List.cons_append, ← List.append_assoc, ← htake,
      List.take_append_drop]
  obtain ⟨hword, htext⟩ := wordOf_eq_some.mp hn
  obtain ⟨hword', htext'⟩ := wordOf_eq_some.mp hm
  refine ⟨m, ?_, hword', by rwa [htext'], CSharpDocument.hitOf_first rfl hnodes hword htext
    (passed vals ?_ ?_)⟩
  · rw [hnodes]
    simp
  · intro u hu
    rw [hnodes]
    exact List.mem_append_left _ hu
  · rwa [hfront]

end

end IoTRepublic.PacketFields
