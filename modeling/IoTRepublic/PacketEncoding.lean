import IoTRepublic.CSharpDocument
import IoTRepublic.TemplateText

/-!
The encoder of the C# library. It writes the text of every token that is no object, no
array and no key, each with a terminator behind it; on the document of a template these
are the values that the builder reads.
-/
namespace IoTRepublic.PacketEncoding

open CheckedArray Jsmn JsonText JsonTable PacketTemplate TemplateText
open Package (Byte)
open CSharpReader (Char16 utf16)
open CSharpDocument (Carries)

def isLeaf (n : Node) : Bool := n.size == 0 && (n.kind == .string || n.kind == .primitive)

/-- The texts of the values among the nodes. -/
def leafTexts (nodes : List Node) : List (List Byte) := (nodes.filter isLeaf).map Node.text

section

variable {e : CSharpJson.JsonData} {doc : Document}

theorem isLeaf_iff (n : Node) : isLeaf n ↔ (tokenOf n).size = 0 ∧
    ((tokenOf n).type = .string ∨ (tokenOf n).type = .primitive) := by
  rw [← KeyPath.isWord_iff, isLeaf, Node.isWord, tokenOf]
  simp

/-- The encoder writes the texts of the values, each with its terminator. -/
theorem encodeLoop_eq (h : CSharpDocument.Carries e doc) (a : List Char16) {nodes : List Node}
    (hnodes : ∀ n ∈ nodes, n ∈ doc.nodes) {others : List Token} {i : ℕ}
    (htokens : e.tokens.drop i = nodes.map tokenOf ++ others) {done : List (List Byte)}
    (hroom : (feed (done ++ leafTexts nodes)).length ≤ a.length) :
    encodeLoop e nodes.length i (splice a 0 (feed done)) (feed done).length =
      .ok (splice a 0 (feed (done ++ leafTexts nodes)),
        (feed (done ++ leafTexts nodes)).length) := by
  induction nodes generalizing i done with
  | nil =>
    rw [leafTexts, List.filter_nil, List.map_nil, List.append_nil]
    rfl
  | cons n nodes ih =>
    have hread : readAt e.tokens i = .ok (tokenOf n) := by
      apply readAt_natCast
      rw [← Nat.add_zero i, ← List.getElem?_drop, htokens]
      rfl
    have hnext : e.tokens.drop (i + 1) = nodes.map tokenOf ++ others := drop_behind [_] htokens
    have hrest := fun m hm => hnodes m (List.mem_cons_of_mem n hm)
    rw [List.length_cons, encodeLoop, hread, ok_bind]
    by_cases hleaf : isLeaf n
    · have htexts : leafTexts (n :: nodes) = [n.text] ++ leafTexts nodes := by
        rw [leafTexts, List.filter_cons_of_pos hleaf]
        rfl
      rw [htexts, ← List.append_assoc] at hroom ⊢
      have htemp : (List.replicate ((tokenOf n).stop - (tokenOf n).start + 1).toNat
          (0 : Char16)).length = n.text.length + 1 := by
        simp only [List.length_replicate, tokenOf, Node.stop]
        omega
      have hpattern := h.getPatteren_node (hnodes n List.mem_cons_self)
        (Nat.lt_of_lt_of_eq (Nat.lt_succ_self n.text.length) htemp.symm)
      rw [List.drop_of_length_le htemp.le] at hpattern
      have hfeed : feed (done ++ [n.text]) = feed done ++ (utf16 n.text ++ [0]) := by
        rw [feed_append]
        simp [feed]
      rw [feed_append _ (leafTexts nodes), List.length_append, hfeed, List.length_append] at hroom
      have hcopy := copyLoop_behind a (feed done) (utf16 n.text ++ [0]) (by omega)
      rw [← hfeed] at hcopy
      have hloop : encodeLoop e nodes.length (i + 1) (splice a 0 (feed (done ++ [n.text])))
          (feed (done ++ [n.text])).length = _ := ih hrest hnext (by
        rw [feed_append, List.length_append, hfeed, List.length_append]
        exact hroom)
      have hlength : (feed done).length + (utf16 n.text ++ [0]).length =
          (feed (done ++ [n.text])).length := by
        rw [hfeed]
        exact (List.length_append ..).symm
      rw [if_pos ((isLeaf_iff n).mp hleaf), hpattern, ok_bind, hcopy, ok_bind, hlength, hloop]
    · have htexts : leafTexts (n :: nodes) = leafTexts nodes := by
        rw [leafTexts, List.filter_cons_of_neg hleaf]
        rfl
      rw [htexts] at hroom ⊢
      rw [if_neg (fun hsize => hleaf ((isLeaf_iff n).mpr hsize))]
      exact ih hrest hnext hroom

/-- The encoder on a text, with any array that has room for the values. -/
theorem encode_eq (h : Carries e doc) (output : List Char16)
    (hroom : (feed (leafTexts doc.nodes)).length ≤ output.length) :
    encode e output = .ok (splice output 0 (feed (leafTexts doc.nodes)),
      (feed (leafTexts doc.nodes)).length) := by
  obtain ⟨others, htokens⟩ := h.tokens
  have hdrop : e.tokens.drop 0 = doc.nodes.map tokenOf ++ others := htokens
  have hloop : encodeLoop e doc.nodes.length 0 (splice output 0 (feed [])) (feed []).length = _ :=
    encodeLoop_eq h output (fun n hn => hn) hdrop hroom
  have hstart : splice output 0 (feed []) = output := by
    rw [splice_zero]
    rfl
  rw [hstart] at hloop
  rw [encode, h.count, Int.toNat_natCast]
  exact hloop

end

section

variable {m : Members}

/-- The values of the members. -/
def values (m : Members) : List (List Byte) := m.inputs fun _ => false

theorem values_leaf (name : Name) (value : Bare) (rest : Members) :
    values (.leaf name value rest) = value.val :: values rest := rfl

theorem values_object (name : Name) (members rest : Members) :
    values (.object name members rest) = values members ++ values rest := rfl

theorem leafTexts_append (nodes nodes' : List Node) :
    leafTexts (nodes ++ nodes') = leafTexts nodes ++ leafTexts nodes' := by
  rw [leafTexts, List.filter_append, List.map_append]
  rfl

theorem leafTexts_container (keyed : Bool) (blank : Blank) (items : Json (.items keyed))
    (pos : ℕ) : leafTexts ((Json.container keyed blank items).nodes pos) =
      leafTexts (items.nodes (pos + 1 + blank.val.length)) := by
  have hleaf : isLeaf (Json.root (.container keyed blank items) pos) = false := by
    rw [isLeaf, Json.root]
    cases keyed <;> simp [containerKind]
  rw [leafTexts, Json.nodes]
  exact congrArg (List.map Node.text) (List.filter_cons_of_neg (by
    rw [Json.root] at hleaf
    rw [hleaf]
    exact Bool.false_ne_true))

theorem leafTexts_json (m : Members) (tab pos : ℕ) :
    leafTexts ((m.json tab).nodes pos) = values m := by
  induction m generalizing tab pos with
  | nil => rfl
  | leaf name value rest ih =>
    rw [Members.json, Json.nodes, leafTexts_append, leafTexts_append, ih, values_leaf]
    rfl
  | object name members rest ihmembers ih =>
    rw [Members.json, Json.nodes, leafTexts_append, leafTexts_append, ih, values_object,
      leafTexts_container, ihmembers]
    rfl

theorem leafTexts_document (m : Members) : leafTexts m.document.nodes = values m := by
  rw [Document.nodes, Members.document, leafTexts_container, leafTexts_json]

/-- The values of a document are shorter than its text, with their terminators too. -/
theorem feed_length_le (m : Members) (tab : ℕ) :
    (feed (values m)).length ≤ (m.body tab).length := by
  have hcons : ∀ (v : List Byte) (vs : List (List Byte)),
      (feed (v :: vs)).length = v.length + 1 + (feed vs).length := by
    intro v vs
    simp [feed, utf16]
    omega
  induction m generalizing tab with
  | nil => exact Nat.zero_le _
  | leaf name value rest ih =>
    have hrest := ih tab
    rw [values_leaf, hcons, Members.body]
    simp only [Members.line, List.length_append, List.length_cons]
    omega
  | object name members rest ihmembers ih =>
    have hrest := ih tab
    have hmembers := ihmembers (tab + 1)
    rw [values_object, feed_append, List.length_append, Members.body]
    simp only [List.length_append, List.length_cons]
    omega

theorem feed_length_le_text (m : Members) :
    (feed (values m)).length ≤ m.document.text.length := by
  have hbody := feed_length_le m 0
  rw [text_document, List.length_cons, List.length_append]
  omega

end

end IoTRepublic.PacketEncoding
