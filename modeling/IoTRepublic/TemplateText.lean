import IoTRepublic.Foundation.JsonText
import IoTRepublic.PacketTemplate

/-!
The document that a table describes. A tree of named values has a table, with a row for
every object, key and value in the order of the text, and a text with a line for every
key. Walking over the table with the values as input writes the text, and leaves the
cursor of the input behind the values that were read.
-/
namespace IoTRepublic.TemplateText

open CheckedArray Jsmn JsonText PacketTemplate
open Package (Byte)
open CSharpReader (Char16 utf16 length_utf16 utf16_append)

/-- A name that fits an array of 24 characters. -/
abbrev Name := { text : List Byte // text ≠ [] ∧ text.length < 24 ∧ isQuoted text }

/-- The members of an object: values and objects under their names. -/
inductive Members
  | nil
  | leaf (name : Name) (value : Bare) (rest : Members)
  | object (name : Name) (members rest : Members)

structure Row where
  name : List Byte
  type : TokenType
  sons : ℕ

/-- A line end and tabs. -/
def newline (tab : ℕ) : Blank := ⟨10 :: List.replicate tab 9, by
  intro c hc
  rcases List.mem_cons.mp hc with rfl | hc
  · rfl
  · rw [List.eq_of_mem_replicate hc]
    rfl⟩

namespace Members

def count : Members → ℕ
  | nil => 0
  | leaf _ _ rest => rest.count + 1
  | object _ _ rest => rest.count + 1

def rows : Members → List Row
  | nil => []
  | leaf name _ rest => ⟨name, .string, 1⟩ :: ⟨[], .string, 0⟩ :: rest.rows
  | object name members rest =>
    ⟨name, .string, 1⟩ :: ⟨[], .object, members.count⟩ :: (members.rows ++ rest.rows)

/-- The comma in front of the members that follow. -/
def sep : Members → List Byte
  | nil => []
  | _ => [44]

/-- The line of a key, up to its value. -/
def line (tab : ℕ) (name : Name) : List Byte :=
  (newline tab).val ++ (34 :: (name.val ++ [34, 58]))

/-- The members of an object whose bracket is in a line with `tab` tabs. -/
def body (tab : ℕ) : Members → List Byte
  | nil => []
  | leaf name value rest => line (tab + 1) name ++ (value.val ++ (rest.sep ++ rest.body tab))
  | object name members rest =>
    line (tab + 1) name ++ ((newline (tab + 1)).val ++ (123 :: (members.body (tab + 1) ++
      ((newline (tab + 1)).val ++ (125 :: (rest.sep ++ rest.body tab))))))

/-- What stands behind the last of the members and in front of the closing bracket. -/
def closing (tab : ℕ) : Members → Blank
  | nil => newline tab
  | _ => noBlank

def key (name : Name) (behind : Blank) : Label true :=
  .key ⟨name, name.property.2.2⟩ noBlank behind

def json (tab : ℕ) : Members → Json (.items true)
  | nil => .nil true
  | leaf name value rest =>
    .cons (newline (tab + 1)) (key name noBlank) (.primitive value) (rest.closing tab)
      (rest.json tab)
  | object name members rest =>
    .cons (newline (tab + 1)) (key name (newline (tab + 1)))
      (.container true (members.closing (tab + 1)) (members.json (tab + 1))) (rest.closing tab)
      (rest.json tab)

def document (m : Members) : Document :=
  ⟨noBlank, .container true (m.closing 0) (m.json 0), noBlank⟩

def table (m : Members) : List Row := ⟨[], .object, m.count⟩ :: m.rows

section

variable (zeroed : List Char16 → Bool)

/-- The values that are read from the input. -/
def inputs : Members → List (List Byte)
  | nil => []
  | leaf name value rest =>
    if zeroed (utf16 name) then rest.inputs else value.val :: rest.inputs
  | object _ members rest => members.inputs ++ rest.inputs

/-- The members as they are written, with `0` for the values that are not read. -/
def shown : Members → Members
  | nil => nil
  | leaf name value rest =>
    leaf name (if zeroed (utf16 name) then ⟨[48], by decide +kernel⟩ else value) rest.shown
  | object name members rest => object name members.shown rest.shown

end

end Members

/-- The strings of the input, each with its terminator. -/
def feed (values : List (List Byte)) : List Char16 := values.flatMap fun v => utf16 v ++ [0]

section

variable (m : Members)

theorem sep_eq (tab : ℕ) : (m.json tab).sep = m.sep := by
  cases m <;> rfl

/-- What stands behind a member. -/
theorem render_rest {tab : ℕ} (h : (m.closing tab).val ++ (m.json tab).render =
      m.body tab ++ (newline tab).val) :
    (m.closing tab).val ++ ((m.json tab).sep ++ (m.json tab).render) =
      m.sep ++ (m.body tab ++ (newline tab).val) := by
  rw [sep_eq, ← h]
  cases m with
  | nil => rfl
  | leaf name value rest => rfl
  | object name members rest => rfl

theorem render_json (tab : ℕ) :
    (m.closing tab).val ++ (m.json tab).render = m.body tab ++ (newline tab).val := by
  induction m generalizing tab with
  | nil => simp [Members.closing, Members.json, Members.body, Json.render]
  | leaf name value rest ih =>
    have hrest := render_rest rest (ih tab)
    have hfirst : (Members.leaf name value rest).closing tab = noBlank := rfl
    simp only [hfirst, Members.json, Members.body, Json.render_cons, Members.line,
      Members.key, Label.render, noBlank, Json.render, List.append_assoc, List.cons_append,
      List.nil_append, hrest]
  | object name members rest ihmembers ih =>
    have hrest := render_rest rest (ih tab)
    have hmembers : ∀ behind, ((members.closing (tab + 1)).val ++
        ((members.json (tab + 1)).render ++ behind)) =
          members.body (tab + 1) ++ ((newline (tab + 1)).val ++ behind) := by
      intro behind
      rw [← List.append_assoc, ihmembers (tab + 1), List.append_assoc]
    have hfirst : (Members.object name members rest).closing tab = noBlank := rfl
    simp only [hfirst, Members.json, Members.body, Json.render_cons, Members.line,
      Members.key, Label.render, noBlank, Json.render, opening, JsonText.closing, ↓reduceIte,
      List.append_assoc, List.cons_append, List.nil_append, hmembers, hrest]

theorem text_document : m.document.text = 123 :: (m.body 0 ++ [10, 125]) := by
  have hbody := render_json m 0
  simp only [Document.text, Members.document, Json.render, noBlank, List.nil_append,
    List.append_nil]
  rw [← List.append_assoc, hbody]
  simp [newline, opening, JsonText.closing]

end

theorem shown_all (m : Members) : m.shown (fun _ => false) = m := by
  induction m with
  | nil => rfl
  | leaf name value rest ih => rw [Members.shown, ih]; rfl
  | object name members rest ihmembers ih => rw [Members.shown, ihmembers, ih]

/-- Characters copied behind those at the front of the array. -/
theorem copyLoop_behind (a front more : List Char16) (h : front.length + more.length ≤ a.length) :
    copyLoop more more.length 0 front.length (splice a 0 front) =
      .ok (splice a 0 (front ++ more)) := by
  have hlength : (splice a 0 front).length = a.length := by
    apply splice_length
    omega
  have hcopy := copyLoop_eq more more.length 0 front.length (splice a 0 front) (by omega)
    (by rw [hlength]; omega)
  have hadjacent := splice_splice a 0 front more (by omega)
  rw [Nat.zero_add] at hadjacent
  rwa [List.drop_zero, List.take_length, hadjacent] at hcopy

/-- The array with a text at its front, and the cursors behind the text. -/
def written (a : List Char16) (text : List Byte) (infoI inI : ℕ) : Builder :=
  ⟨splice a 0 (utf16 text), text.length, infoI, inI, 0, 0⟩

section

variable {a : List Char16} {text v : List Byte} {i j : ℕ}

/-- A string copied behind the text. -/
theorem copyLoop_written (h : text.length + v.length ≤ a.length) :
    copyLoop (utf16 v) (utf16 v).length 0 text.length (splice a 0 (utf16 text)) =
      .ok (splice a 0 (utf16 (text ++ v))) := by
  have hcopy := copyLoop_behind a (utf16 text) (utf16 v) (by rwa [length_utf16, length_utf16])
  rwa [length_utf16 text, ← utf16_append] at hcopy

theorem arrPutc_written (c : Byte) (h : text.length < a.length) :
    (written a text i j).arrPutc c.toUInt16 = .ok (written a (text ++ [c]) i j) := by
  have hlength : (splice a 0 (utf16 text)).length = a.length := by
    apply splice_length
    rw [length_utf16]
    omega
  have hwrite := writeAt_natCast (splice a 0 (utf16 text)) text.length c.toUInt16 (by omega)
  have hadjacent := splice_splice a 0 (utf16 text) [c.toUInt16] (by rw [length_utf16]; omega)
  rw [Nat.zero_add, length_utf16] at hadjacent
  rw [splice_singleton _ _ _ (by omega), hadjacent] at hwrite
  rw [Builder.arrPutc]
  simp only [written]
  rw [hwrite, ok_bind, utf16_append, List.length_append]
  rfl

theorem putTabs_written (n : ℕ) (h : text.length + n ≤ a.length) :
    (written a text i j).putTabs n = .ok (written a (text ++ List.replicate n 9) i j) := by
  induction n generalizing text with
  | zero => rw [List.replicate_zero, List.append_nil, Builder.putTabs]
  | succ n ih =>
    have hstep : (written a text i j).arrPutc 9 = .ok (written a (text ++ [9]) i j) :=
      arrPutc_written 9 (by omega)
    have hrest : (written a (text ++ [9]) i j).putTabs n = _ := ih (by
      rw [List.length_append, List.length_singleton]
      omega)
    rw [Builder.putTabs, hstep, ok_bind, hrest, List.append_assoc, List.singleton_append,
      List.replicate_succ]

theorem arrPuts_written {rest : List Char16} (hnul : (0 : Byte) ∉ v)
    (h : text.length + v.length ≤ a.length) :
    (written a text i j).arrPuts (utf16 v ++ 0 :: rest) = .ok (written a (text ++ v) i j) := by
  have hread := cString_append 0 (utf16 v) rest (CSharpReader.zero_notMem_utf16 hnul)
  rw [Builder.arrPuts, hread, ok_bind]
  simp only [written]
  rw [copyLoop_written h, ok_bind, length_utf16, List.length_append]

theorem inArrPuts_written {input rest : List Char16} (hinput : input.drop j = utf16 v ++ 0 :: rest)
    (hnul : (0 : Byte) ∉ v) (h : text.length + v.length ≤ a.length) :
    (written a text i j).inArrPuts input = .ok (written a (text ++ v) i (j + v.length + 1)) := by
  have hread := cString_append 0 (utf16 v) rest (CSharpReader.zero_notMem_utf16 hnul)
  rw [Builder.inArrPuts]
  simp only [written]
  rw [hinput, hread, ok_bind, copyLoop_written h, ok_bind, length_utf16, List.length_append]

end

/-- The arrays of a table hold its rows. -/
structure Describes (info : TokenInfo) (rows : List Row) : Prop where
  num : info.num = rows.length
  nameLens : info.nameLens = rows.map fun row => row.name.length
  names : info.names =
    rows.map fun row => utf16 row.name ++ List.replicate (24 - row.name.length) 0
  types : info.types = rows.map Row.type
  sons : info.sons = rows.map Row.sons

section

variable {info : TokenInfo} {rows : List Row} {r : Row} {i : ℕ}

theorem readAt_map {α : Type} (f : Row → α) (h : rows[i]? = some r) :
    readAt (rows.map f) i = .ok (f r) := by
  apply readAt_natCast
  rw [List.getElem?_map, h]
  rfl

theorem Describes.row (h : Describes info rows) (hrow : rows[i]? = some r) :
    i ≠ info.num ∧ readAt info.nameLens i = .ok r.name.length ∧
      readAt info.names i = .ok (utf16 r.name ++ List.replicate (24 - r.name.length) 0) ∧
      readAt info.types i = .ok r.type ∧ readAt info.sons i = .ok r.sons := by
  have hlt := (List.getElem?_eq_some_iff.mp hrow).1
  rw [h.nameLens, h.names, h.types, h.sons, readAt_map _ hrow, readAt_map _ hrow,
    readAt_map _ hrow, readAt_map _ hrow, h.num]
  exact ⟨by omega, rfl, rfl, rfl, rfl⟩

end

@[simp] theorem written_infoI (a : List Char16) (text : List Byte) (i j : ℕ) :
    (written a text i j).infoI = i := rfl

section

variable {zeroed : List Char16 → Bool} {input a : List Char16} {info : TokenInfo}
  {rows : List Row} {text body : List Byte} {i i' j j' n tab fuel : ℕ} {name : Name} {value : Bare}

/-- An array of 24 characters has a terminator behind the name. -/
theorem replicate_name (name : Name) : List.replicate (24 - name.val.length) (0 : Char16) =
    0 :: List.replicate (23 - name.val.length) 0 := by
  have hshort := name.property.2.1
  have hlength : 24 - name.val.length = 23 - name.val.length + 1 := by omega
  rw [hlength, List.replicate_succ]

/-- A name between quotes. -/
theorem name_written (hinfo : Describes info rows) (hrow : rows[i]? = some ⟨name, .string, n⟩)
    (hroom : text.length + name.val.length + 2 ≤ a.length) :
    ((written a text i j).arrPutc quote.toUInt16 >>= fun s =>
      readAt info.names s.infoI >>= fun name =>
        s.arrPuts name >>= fun s => s.arrPutc quote.toUInt16) =
      .ok (written a (text ++ (34 :: (name.val ++ [34]))) i j) := by
  obtain ⟨-, -, hnames, -, -⟩ := hinfo.row hrow
  have hzeros := replicate_name name
  have hopen : (written a text i j).arrPutc quote.toUInt16 = _ := arrPutc_written quote (by omega)
  have hputs : (written a (text ++ [quote]) i j).arrPuts (utf16 name ++
      0 :: List.replicate (23 - name.val.length) 0) = _ :=
    arrPuts_written (zero_notMem_quoted name.property.2.2) (by
      rw [List.length_append, List.length_singleton]
      omega)
  have hclose : (written a (text ++ [quote] ++ name.val) i j).arrPutc quote.toUInt16 = _ :=
    arrPutc_written quote (by
      rw [List.length_append, List.length_append, List.length_singleton]
      omega)
  have hall : text ++ [quote] ++ name.val ++ [quote] = text ++ (34 :: (name.val ++ [34])) := by
    simp [quote]
  rw [hopen, ok_bind, written_infoI, hnames, ok_bind, hzeros, hputs, ok_bind, hclose, hall]

/-- The line of a key. -/
theorem build_line (hinfo : Describes info rows) (hrow : rows[i]? = some ⟨name, .string, 1⟩)
    (hroom : text.length + (Members.line (tab + 1) name).length ≤ a.length) :
    build zeroed input info (fuel + 1) (tab + 1) (written a text i j) =
      (readAt info.types (i + 1 : ℕ) >>= fun next =>
        if next = .object ∨ next = .array then
          build zeroed input info fuel (tab + 1)
            (written a (text ++ Members.line (tab + 1) name) (i + 1) j)
        else do
          let s ← (if zeroed (utf16 name) then
              (written a (text ++ Members.line (tab + 1) name) i j).arrPutc 48
            else (written a (text ++ Members.line (tab + 1) name) i j).inArrPuts input)
          .ok { s with infoI := s.infoI + 1 }) := by
  obtain ⟨hne, hlen, hnames, htypes, hsons⟩ := hinfo.row hrow
  have hpos : name.val.length ≠ 0 := fun h => name.property.1 (List.length_eq_zero_iff.mp h)
  have hline : Members.line (tab + 1) name =
      [10] ++ List.replicate (tab + 1) 9 ++ (34 :: (name.val ++ [34])) ++ [58] := by
    simp [Members.line, newline]
  rw [hline] at hroom ⊢
  simp only [List.length_append, List.length_cons, List.length_nil, List.length_replicate] at hroom
  have hnewline : (written a text i j).arrPutc 10 = _ := arrPutc_written 10 (by omega)
  have htabs : (written a (text ++ [10]) i j).putTabs (tab + 1) = _ := putTabs_written (tab + 1) (by
    rw [List.length_append, List.length_singleton]
    omega)
  have hname := name_written (j := j) hinfo hrow
    (show (text ++ [10] ++ List.replicate (tab + 1) 9).length + _ + 2 ≤ a.length by
      simp only [List.length_append, List.length_cons, List.length_nil, List.length_replicate]
      omega)
  have hcolon : (written a (text ++ [10] ++ List.replicate (tab + 1) 9 ++
      (34 :: (name.val ++ [34]))) i j).arrPutc colon.toUInt16 = _ := arrPutc_written colon (by
    simp only [List.length_append, List.length_cons, List.length_nil, List.length_replicate]
    omega)
  have hread := cString_append 0 (utf16 name) (List.replicate (23 - name.val.length) 0)
    (CSharpReader.zero_notMem_utf16 (zero_notMem_quoted name.property.2.2))
  have hzeros := replicate_name name
  have hall : text ++ [10] ++ List.replicate (tab + 1) 9 ++ (34 :: (name.val ++ [34])) ++ [colon] =
      text ++ ([10] ++ List.replicate (tab + 1) 9 ++ (34 :: (name.val ++ [34])) ++ [58]) := by
    simp [colon]
  rw [hzeros] at hnames
  rw [build, if_neg (show ¬ (written a text i j).infoI = info.num from hne),
    if_pos (Nat.succ_ne_zero tab), hnewline, ok_bind, htabs, ok_bind, written_infoI, hlen, ok_bind,
    if_pos hpos, hname, ok_bind, written_infoI, htypes, ok_bind]
  dsimp only
  rw [hsons, ok_bind, if_pos rfl, hcolon, ok_bind, written_infoI, hall]
  simp only [hnames, ok_bind, hread]
  rfl

theorem zero_notMem_bare (value : Bare) : (0 : Byte) ∉ value.val :=
  fun hmem => ne_zero_of_isBare (value.property.2 0 hmem) rfl

/-- A key with a value that is read or left `0`. -/
theorem build_leaf {rest : List Char16} (hinfo : Describes info rows)
    (hkey : rows[i]? = some ⟨name, .string, 1⟩) (hvalue : rows[i + 1]? = some ⟨[], .string, 0⟩)
    (hinput : input.drop j =
      feed (if zeroed (utf16 name) then [] else [value.val]) ++ rest)
    (hroom : text.length + (Members.line (tab + 1) name).length +
      (if zeroed (utf16 name) then [48] else value.val).length ≤ a.length) :
    build zeroed input info (fuel + 1) (tab + 1) (written a text i j) =
      .ok (written a (text ++ (Members.line (tab + 1) name ++
        (if zeroed (utf16 name) then [48] else value.val))) (i + 1)
          (j + (feed (if zeroed (utf16 name) then [] else [value.val])).length)) := by
  obtain ⟨-, -, -, htypes, -⟩ := hinfo.row hvalue
  rw [build_line hinfo hkey (by omega), htypes, ok_bind, if_neg (by decide)]
  by_cases hzeroed : zeroed (utf16 name)
  · simp only [hzeroed, ↓reduceIte] at hroom ⊢
    have hput : (written a (text ++ Members.line (tab + 1) name) i j).arrPutc 48 = .ok (written a
        (text ++ Members.line (tab + 1) name ++ [48]) i j) := arrPutc_written 48 (by
      rw [List.length_append]
      simp only [List.length_singleton] at hroom
      omega)
    rw [hput, ok_bind, List.append_assoc]
    rfl
  · simp only [hzeroed, Bool.false_eq_true, ↓reduceIte] at hroom hinput ⊢
    have hfeed : feed [value.val] = utf16 value.val ++ [0] := by simp [feed]
    have hrest : input.drop j = utf16 value.val ++ 0 :: rest := by
      rw [hinput, hfeed, List.append_assoc, List.singleton_append]
    have hputs : (written a (text ++ Members.line (tab + 1) name) i j).inArrPuts input = _ :=
      inArrPuts_written hrest (zero_notMem_bare value) (by
        rw [List.length_append]
        omega)
    rw [hputs, ok_bind, List.append_assoc, hfeed, List.length_append, length_utf16]
    rfl

/-- An object, from its bracket on. -/
theorem buildContainer_written {call : Builder → Exec Builder} {r : Row}
    (hinfo : Describes info rows) (hrow : rows[i]? = some r)
    (hsons : buildSons call r.sons (written a (text ++ [123]) i j) =
      .ok (written a (text ++ [123] ++ body) i' j'))
    (hroom : text.length + body.length + tab + 3 ≤ a.length) :
    buildContainer call leftBrace rightBrace info tab (written a text i j) =
      .ok (written a (text ++ (123 :: (body ++ ((newline tab).val ++ [125])))) i' j') := by
  obtain ⟨-, -, -, -, hson⟩ := hinfo.row hrow
  have hopen : (written a text i j).arrPutc leftBrace.toUInt16 = _ :=
    arrPutc_written leftBrace (by omega)
  have hline : (written a (text ++ [123] ++ body) i' j').arrPutc 10 = _ :=
    arrPutc_written 10 (by
      simp only [List.length_append, List.length_singleton]
      omega)
  have htabs : (written a (text ++ [123] ++ body ++ [10]) i' j').putTabs tab = _ :=
    putTabs_written tab (by
      simp only [List.length_append, List.length_singleton]
      omega)
  have hclose : (written a (text ++ [123] ++ body ++ [10] ++ List.replicate tab 9) i'
      j').arrPutc rightBrace.toUInt16 = _ := arrPutc_written rightBrace (by
    simp only [List.length_append, List.length_singleton, List.length_replicate]
    omega)
  have hall : text ++ [123] ++ body ++ [10] ++ List.replicate tab 9 ++ [rightBrace] =
      text ++ (123 :: (body ++ ((newline tab).val ++ [125]))) := by
    simp [newline, rightBrace]
  rw [buildContainer, written_infoI, hson, ok_bind, hopen, ok_bind, hsons, ok_bind, hline, ok_bind,
    htabs, ok_bind, hclose, hall]

/-- The row of an object behind its key. -/
theorem build_object (hinfo : Describes info rows) (hrow : rows[i]? = some ⟨[], .object, n⟩)
    (hsons : buildSons (build zeroed input info fuel (tab + 2)) n
        (written a (text ++ (newline (tab + 1)).val ++ [123]) i j) =
      .ok (written a (text ++ (newline (tab + 1)).val ++ [123] ++ body) i' j'))
    (hroom : text.length + body.length + 2 * (tab + 1) + 4 ≤ a.length) :
    build zeroed input info (fuel + 1) (tab + 1) (written a text i j) =
      .ok (written a (text ++ ((newline (tab + 1)).val ++ (123 :: (body ++
        ((newline (tab + 1)).val ++ [125]))))) i' j') := by
  obtain ⟨hne, hlen, -, htypes, -⟩ := hinfo.row hrow
  have hline : (written a text i j).arrPutc 10 = _ := arrPutc_written 10 (by omega)
  have htabs : (written a (text ++ [10]) i j).putTabs (tab + 1) = _ := putTabs_written (tab + 1) (by
    rw [List.length_append, List.length_singleton]
    omega)
  have hfront : text ++ [10] ++ List.replicate (tab + 1) 9 = text ++ (newline (tab + 1)).val := by
    rw [List.append_assoc]
    rfl
  have hcontainer := buildContainer_written hinfo hrow hsons
    (show (text ++ (newline (tab + 1)).val).length + body.length + (tab + 1) + 3 ≤ a.length by
      simp only [newline, List.length_append, List.length_cons, List.length_replicate]
      omega)
  rw [hfront] at htabs
  rw [build, if_neg (show ¬ (written a text i j).infoI = info.num from hne),
    if_pos (Nat.succ_ne_zero tab), hline, ok_bind, htabs, ok_bind, written_infoI, hlen, ok_bind,
    if_neg (fun h => h rfl), ok_bind, written_infoI, htypes, ok_bind]
  dsimp only
  rw [hcontainer, ok_bind, if_neg (Nat.succ_ne_zero tab), List.append_assoc]

/-- The comma behind a member. -/
theorem sep_written (m : Members) (h : text.length + m.sep.length ≤ a.length) :
    (if m.count ≠ 0 then (written a text i j).arrPutc comma.toUInt16
      else .ok (written a text i j)) = .ok (written a (text ++ m.sep) i j) := by
  cases m with
  | nil => rw [Members.count, if_neg (fun h => h rfl), Members.sep, List.append_nil]
  | leaf | object =>
    rw [Members.count, if_pos (Nat.succ_ne_zero _)]
    exact arrPutc_written comma h

theorem feed_append (values values' : List (List Byte)) :
    feed (values ++ values') = feed values ++ feed values' := List.flatMap_append

theorem sep_shown (m : Members) : (m.shown zeroed).sep = m.sep := by
  cases m <;> rfl

theorem body_shown_leaf (rest : Members) :
    ((Members.leaf name value rest).shown zeroed).body tab = Members.line (tab + 1) name ++
      ((if zeroed (utf16 name) then [48] else value.val) ++
        (rest.sep ++ (rest.shown zeroed).body tab)) := by
  rw [Members.shown, Members.body, sep_shown, apply_ite Subtype.val]

theorem inputs_leaf (rest : Members) :
    (Members.leaf name value rest).inputs zeroed =
      (if zeroed (utf16 name) then [] else [value.val]) ++ rest.inputs zeroed := by
  rw [Members.inputs]
  split <;> rfl

theorem body_shown_object (members rest : Members) :
    ((Members.object name members rest).shown zeroed).body tab =
      Members.line (tab + 1) name ++ (((newline (tab + 1)).val ++ (123 ::
        ((members.shown zeroed).body (tab + 1) ++ ((newline (tab + 1)).val ++ [125])))) ++
          (rest.sep ++ (rest.shown zeroed).body tab)) := by
  rw [Members.shown, Members.body, sep_shown]
  simp only [List.append_assoc, List.cons_append, List.nil_append]

/-- A member, the comma behind it and the members that follow. -/
theorem buildSons_cons {call : Builder → Exec Builder} (others : Members) {block more : List Byte}
    {k l : ℕ} (hmember : call (written a text (i + 1) j) = .ok (written a (text ++ block) k l))
    (hrest : buildSons call others.count (written a (text ++ block ++ others.sep) k l) =
      .ok (written a (text ++ block ++ others.sep ++ more) i' j'))
    (hroom : text.length + block.length + others.sep.length ≤ a.length) :
    buildSons call (others.count + 1) (written a text i j) =
      .ok (written a (text ++ (block ++ (others.sep ++ more))) i' j') := by
  have hnext : ({ written a text i j with infoI := (written a text i j).infoI + 1 } : Builder) =
      written a text (i + 1) j := rfl
  have hsep : _ = Except.ok (written a (text ++ block ++ others.sep) k l) :=
    sep_written others (by rwa [List.length_append])
  rw [buildSons, hnext, hmember, ok_bind, hsep, ok_bind, hrest]
  simp only [List.append_assoc]

theorem getElem?_behind {more : List Row} (hrows : rows.drop i = more) (k : ℕ) :
    rows[i + k]? = more[k]? := by
  rw [← hrows, List.getElem?_drop]

theorem drop_behind {α : Type} {all more : List α} (read : List α)
    (h : all.drop i = read ++ more) :
    all.drop (i + read.length) = more := by
  rw [← List.drop_drop, h, List.drop_left]

/-- Walking over the rows of the members writes them, and reads their values. -/
theorem buildSons_written (m : Members) {behind : List Row} {rest : List Char16}
    (hinfo : Describes info rows) (hrows : rows.drop (i + 1) = m.rows ++ behind)
    (hfuel : m.rows.length ≤ fuel) (hinput : input.drop j = feed (m.inputs zeroed) ++ rest)
    (hroom : text.length + ((m.shown zeroed).body tab).length ≤ a.length) :
    buildSons (build zeroed input info fuel (tab + 1)) m.count (written a text i j) =
      .ok (written a (text ++ (m.shown zeroed).body tab) (i + m.rows.length)
        (j + (feed (m.inputs zeroed)).length)) := by
  induction m generalizing tab fuel text i j behind rest with
  | nil =>
    simp only [Members.count, buildSons, Members.shown, Members.body, Members.rows, Members.inputs,
      feed, List.append_nil, List.flatMap_nil, List.length_nil, Nat.add_zero]
  | leaf name value others ih =>
    have hlength : (Members.leaf name value others).rows.length = others.rows.length + 2 := rfl
    obtain ⟨fuel, rfl⟩ := Nat.exists_eq_add_of_le' (Nat.le_trans (Nat.le_add_left 1 _) hfuel)
    rw [inputs_leaf, feed_append] at hinput ⊢
    rw [List.append_assoc] at hinput
    rw [body_shown_leaf, ← List.append_assoc (Members.line (tab + 1) name)] at hroom ⊢
    have hkey : rows[i + 1]? = some ⟨name, .string, 1⟩ := getElem?_behind hrows 0
    have hvalue : rows[i + 1 + 1]? = some ⟨[], .string, 0⟩ := getElem?_behind hrows 1
    simp only [List.length_append] at hroom
    have hleaf : build zeroed input info (fuel + 1) (tab + 1) (written a text (i + 1) j) = _ :=
      build_leaf hinfo hkey hvalue hinput (by omega)
    have hrows' : rows.drop (i + 1 + 1 + 1) = others.rows ++ behind :=
      drop_behind [_, _] hrows
    have hrest := buildSons_cons others hleaf (ih hrows' (by omega) (drop_behind _ hinput) (by
      simp only [List.length_append]
      omega)) (by
      rw [List.length_append]
      omega)
    rw [Members.count, hrest, hlength, List.length_append]
    congr 2 <;> omega
  | object name members others ihmembers ih =>
    have hlength : (Members.object name members others).rows.length =
        members.rows.length + others.rows.length + 2 := by
      simp only [Members.rows, List.length_cons, List.length_append]
    rw [hlength] at hfuel ⊢
    obtain ⟨fuel, rfl⟩ := Nat.exists_eq_add_of_le' (Nat.le_trans (Nat.le_add_left 2 _) hfuel)
    rw [Members.inputs, feed_append] at hinput ⊢
    rw [List.append_assoc] at hinput
    rw [body_shown_object, ← List.append_assoc (Members.line (tab + 1) name)] at hroom ⊢
    have hkey : rows[i + 1]? = some ⟨name, .string, 1⟩ := getElem?_behind hrows 0
    have hobject : rows[i + 1 + 1]? = some ⟨[], .object, members.count⟩ :=
      getElem?_behind hrows 1
    obtain ⟨-, -, -, htypes, -⟩ := hinfo.row hobject
    have hnewline : (newline (tab + 1)).val.length = tab + 2 := by simp [newline]
    simp only [List.length_append, List.length_cons, List.length_nil, hnewline] at hroom
    have hrows' : rows.drop (i + 1 + 1 + 1) = members.rows ++ (others.rows ++ behind) := by
      have hdrop : rows.drop (i + 1 + 2) = members.rows ++ others.rows ++ behind :=
        drop_behind [_, _] hrows
      rw [← List.append_assoc, ← hdrop]
    have hmembers : buildSons (build zeroed input info fuel (tab + 2)) members.count
        (written a (text ++ Members.line (tab + 1) name ++ (newline (tab + 1)).val ++ [123])
          (i + 1 + 1) j) = _ := ihmembers hrows' (by omega) hinput (by
      simp only [List.length_append, List.length_cons, List.length_nil, hnewline]
      omega)
    have hwhole := build_object hinfo hobject hmembers (by
      simp only [List.length_append]
      omega)
    have hmember : build zeroed input info (fuel + 2) (tab + 1) (written a text (i + 1) j) = _ :=
      build_line hinfo hkey (by omega)
    rw [htypes, ok_bind, if_pos (.inl rfl), hwhole, List.append_assoc] at hmember
    have hrows'' : rows.drop (i + 1 + 1 + members.rows.length + 1) = others.rows ++ behind := by
      rw [← drop_behind _ hrows']
      congr 1
      omega
    have hrest := buildSons_cons others hmember (ih hrows'' (by omega) (drop_behind _ hinput) (by
      simp only [List.length_append, List.length_cons, List.length_nil, hnewline]
      omega)) (by
      simp only [List.length_append, List.length_cons, List.length_nil, hnewline]
      omega)
    rw [Members.count, hrest, List.length_append]
    congr 2 <;> omega

/-- Walking over a table writes the text of the document it describes. -/
theorem build_document (m : Members) {rest : List Char16} (hinfo : Describes info m.table)
    (hfuel : m.rows.length ≤ fuel) (hinput : input = feed (m.inputs zeroed) ++ rest)
    (hroom : (m.shown zeroed).document.text.length ≤ a.length) :
    build zeroed input info (fuel + 1) 0 ⟨a, 0, 0, 0, 0, 0⟩ =
      .ok ⟨splice a 0 (utf16 (m.shown zeroed).document.text), 0, 0, 0,
        (m.shown zeroed).document.text.length, (feed (m.inputs zeroed)).length⟩ := by
  have hrow : m.table[0]? = some ⟨[], .object, m.count⟩ := rfl
  obtain ⟨hne, hlen, -, htypes, -⟩ := hinfo.row hrow
  have hstart : (⟨a, 0, 0, 0, 0, 0⟩ : Builder) = written a [] 0 0 := by
    rw [written, splice_zero]
    rfl
  have htext : (m.shown zeroed).document.text =
      123 :: ((m.shown zeroed).body 0 ++ ((newline 0).val ++ [125])) := text_document _
  simp only [htext, newline, List.length_append, List.length_cons, List.length_nil,
    List.length_replicate] at hroom
  have hsons : buildSons (build zeroed input info fuel 1) m.count (written a ([] ++ [123]) 0 0) =
      _ := buildSons_written m hinfo (List.append_nil _).symm hfuel
    (by rw [List.drop_zero, hinput]) (by
      simp only [List.length_append, List.length_cons, List.length_nil]
      omega)
  have hcontainer : buildContainer (build zeroed input info fuel 1) leftBrace rightBrace info 0
      (written a [] 0 0) = _ := buildContainer_written hinfo hrow hsons (by
    simp only [List.length_nil]
    omega)
  rw [List.nil_append, ← htext] at hcontainer
  rw [hstart, build, if_neg (show ¬ (written a [] 0 0).infoI = info.num from hne),
    if_neg (fun h => h rfl), ok_bind, Builder.putTabs, ok_bind, written_infoI, hlen, ok_bind,
    if_neg (fun h => h rfl), ok_bind, written_infoI, htypes, ok_bind]
  dsimp only
  rw [hcontainer, ok_bind, if_pos rfl, Nat.zero_add, Nat.zero_add]
  rfl

end

end IoTRepublic.TemplateText
