import IoTRepublic.Foundation.Runs
import IoTRepublic.PacketFields

/-!
What the decoder of the C# library makes of an encoded packet. The encoder writes the
values of a packet in the order of its text. The decoder builds the packet from all of
them but the last, with `0` in the place of the last, and then sets `Data` by its key
alone. This search meets the other values too, so the packet comes back exactly if none
of them is spelled `Data`.
-/
namespace IoTRepublic.PacketCodec

open CheckedArray JsonText CSharpJson PacketTemplate TemplateText
open PacketEncoding PacketFields Runs
open Package (Byte ascii)
open CSharpReader (Char16 utf16 length_utf16)
open CSharpDocument (Carries)

/-- A letter, a digit or a dot. -/
def isPlainChar (c : Byte) : Bool :=
  (48 ≤ c && c ≤ 57) || (65 ≤ c && c ≤ 90) || (97 ≤ c && c ≤ 122) || c == 46

theorem isBare_of_isPlainChar {c : Byte} (h : isPlainChar c) : isBare c := by
  have hall : ∀ n : Fin 256, isPlainChar (UInt8.ofFin n) → isBare (UInt8.ofFin n) := by
    decide +kernel
  exact hall c.toFin h

abbrev Plain := { text : List Byte // text ≠ [] ∧ ∀ c ∈ text, isPlainChar c }

def bare (v : Plain) : Bare :=
  ⟨v.val, v.property.1, fun c hc => isBare_of_isPlainChar (v.property.2 c hc)⟩

def zero : Plain := ⟨[48], by decide +kernel⟩

/-- A call of `set_packet_single_value` for a field, with the characters behind the value. -/
structure Call where
  field : Field
  value : Plain
  beyond : List Char16

/-- A packet with the values that its fields were given. -/
structure State where
  jsonData : JsonData
  vals : Field → Plain

def Sets (s : State) (c : Call) (s' : State) : Prop :=
  setPacketSingleValue (utf16 c.value ++ 0 :: c.beyond) (c.field.path.map utf16) s.jsonData =
    .ok s'.jsonData ∧ s'.vals = Function.update s.vals c.field c.value

/-- No value that the search for the field meets is spelled like its key. -/
def Reaches (s : State) (c : Call) : Prop := Reached (fun f => bare (s.vals f)) c.field

/-- The packet holds the values that were given. -/
def State.Holds (s : State) : Prop :=
  Carries s.jsonData (packet fun f => bare (s.vals f)).document

section

variable {d d₀ d₁ : JsonData} {s s' : State} {c : Call} {calls : List Call}

theorem few (vals : Field → Bare) : (packet vals).document.nodes.length ≤ MAXTOKENSIZE := by
  have hlength : (packet vals).document.nodes.length = 23 := rfl
  rw [hlength]
  decide

/-- A new packet has the value `0` for every field. -/
theorem exists_init (hsize : d₀.content.length = MAXPACKETSIZE) :
    ∃ d₁, initJsonPacket d₀ = .ok d₁ ∧ State.Holds ⟨d₁, fun _ => zero⟩ := by
  obtain ⟨m, hm⟩ : ∃ m, m = packet fun _ => bare zero := ⟨_, rfl⟩
  have hshort : m.document.text.length < MAXPACKETSIZE := by
    rw [hm]
    decide +kernel
  have hzeros : zeroValues = feed (m.inputs fun _ => false) ++
      (List.replicate (MAXPACKETSIZE - 9) [48, 0]).flatten := by
    have hsplit : MAXPACKETSIZE = 9 + (MAXPACKETSIZE - 9) := rfl
    rw [zeroValues, hsplit, List.replicate_add, List.flatten_append, hm]
    rfl
  have hrows : m.rows.length ≤ 23 := by
    rw [hm]
    decide +kernel
  have hbuild : buildPacket zeroValues initTokenInfo d₀.content = _ :=
    build_document m (hm ▸ describes _) hrows hzeros (by
      rw [shown_all, hsize]
      exact hshort.le)
  rw [shown_all] at hbuild
  have hroom : (utf16 m.document.text).length < d₀.content.length := by
    rwa [length_utf16, hsize]
  have hwrite := writeAt_natCast (splice d₀.content 0 (utf16 m.document.text))
    m.document.text.length (0 : Char16) (by rw [splice_length _ _ _ (by omega)]; rwa [hsize])
  rw [← length_utf16 m.document.text, splice_set_end _ _ hroom, length_utf16] at hwrite
  have htokens : ∃ e, initToken { d₀ with
      content := utf16 m.document.text ++ 0 :: d₀.content.drop (m.document.text.length + 1)
      contentSize := m.document.text.length } = .ok e ∧ Carries e m.document :=
    CSharpDocument.exists_initToken rfl (by
      dsimp only
      rw [List.length_append, List.length_cons, List.length_drop, length_utf16, hsize]
      omega) (hm ▸ few _)
  obtain ⟨d₁, hinit, hcarries⟩ := htokens
  rw [hm] at hcarries
  refine ⟨d₁, ?_, hcarries⟩
  rw [initJsonPacket, hbuild, checked_ok, returned_bind]
  dsimp only
  rw [hwrite, checked_ok, returned_bind, hinit]

/-- A call that comes to its field. -/
theorem set_field (h : s.Holds) (hreach : Reaches s c) :
    ((packet fun f => bare (Function.update s.vals c.field c.value f)).document.text.length <
        MAXPACKETSIZE → ∃ d', setPacketSingleValue (utf16 c.value ++ 0 :: c.beyond)
          (c.field.path.map utf16) s.jsonData = .ok d') ∧
      ∀ d', setPacketSingleValue (utf16 c.value ++ 0 :: c.beyond) (c.field.path.map utf16)
          s.jsonData = .ok d' → State.Holds ⟨d', Function.update s.vals c.field c.value⟩ := by
  obtain ⟨q, hfollow⟩ := follow_path (fun f => bare (s.vals f)) c.field
  have hself := (packet fun f => bare (s.vals f)).document.value.self_mem_subvalues
    (packet fun f => bare (s.vals f)).document.lead.val.length
  have hfind := CSharpDocument.findRange_follow h c.field.path hself hfollow (clear_path _ hreach)
  have hkeys : c.field.path.map utf16 ≠ [] := by
    cases c.field <;> exact List.cons_ne_nil _ _
  have hset := CSharpDocument.set_path h rfl rfl hkeys hfollow hfind (bare c.value) c.beyond
  have hupdate : (fun f => bare (Function.update s.vals c.field c.value f)) =
      Function.update (fun f => bare (s.vals f)) c.field (bare c.value) :=
    Function.comp_update bare s.vals c.field c.value
  rw [assign_path, ← hupdate] at hset
  exact hset

/-- A call that comes to its field gives it the value. -/
theorem holds_step (h : s.Holds) (hstep : Meeting Sets Reaches s c s') : s'.Holds := by
  obtain ⟨⟨hset, hvals⟩, hreach⟩ := hstep
  have hholds := (set_field h hreach).2 _ hset
  rw [← hvals] at hholds
  exact hholds

/-- A call that comes to its field succeeds if the new text has room. -/
theorem exists_step (h : s.Holds) (hreach : Reaches s c) (hroom : (packet fun f =>
      bare (Function.update s.vals c.field c.value f)).document.text.length < MAXPACKETSIZE) :
    ∃ d', Meeting Sets Reaches s c ⟨d', Function.update s.vals c.field c.value⟩ := by
  obtain ⟨d', hset⟩ := (set_field h hreach).1 hroom
  exact ⟨d', ⟨hset, rfl⟩, hreach⟩

/-- In a run of such calls the packet holds the values that were given last. -/
theorem holds_run (hsize : d₀.content.length = MAXPACKETSIZE)
    (hinit : initJsonPacket d₀ = .ok d₁)
    (hrun : Run (Meeting Sets Reaches) ⟨d₁, fun _ => zero⟩ calls s) : s.Holds := by
  obtain ⟨d, hd, hholds⟩ := exists_init hsize
  rw [hinit] at hd
  obtain rfl := Except.ok.inj hd
  exact hrun.invariant State.Holds (fun _ _ _ h hstep => holds_step h hstep) hholds

end

/-- What the encoder writes is decoded into a fresh `JsonData` with the same text, in which every
field is looked up with the same result. -/
def RoundTrip (d : JsonData) : Prop :=
  ∀ output : List Char16, MAXPACKETSIZE ≤ output.length → ∃ out n, encode d output = .ok (out, n) ∧
    ∀ beyond data : List Char16, MAXPACKETSIZE ≤ data.length → ∃ d' data',
      decode (out.take n ++ beyond) newJsonData data = .ok (d', data') ∧
        GetAfterSet.textOf 0 d'.content = GetAfterSet.textOf 0 d.content ∧
        ∀ (f : Field) (result : List Char16), getPacketValue (f.path.map utf16) d' result =
          getPacketValue (f.path.map utf16) d result

section

variable {d d' : JsonData} {vals : Field → Bare}

theorem values_packet (vals : Field → Bare) : values (packet vals) =
    (packet vals).inputs (fun name => name = utf16 (ascii "Data")) ++ [(vals .data).val] := rfl

theorem shown_packet (vals : Field → Bare) :
    (packet vals).shown (fun name => name = utf16 (ascii "Data")) =
      packet (Function.update vals .data (bare zero)) := rfl

theorem encode_packet (h : Carries d (packet vals).document) {output : List Char16}
    (hroom : MAXPACKETSIZE ≤ output.length) :
    ∃ out, encode d output = .ok (out, (feed (values (packet vals))).length) ∧
      out.take (feed (values (packet vals))).length = feed (values (packet vals)) := by
  have hshort := h.short
  have hfeed := feed_length_le_text (packet vals)
  have hencode := encode_eq h output (by
    rw [leafTexts_document]
    omega)
  rw [leafTexts_document, splice_zero] at hencode
  exact ⟨_, hencode, List.take_left⟩

/-- The packet with `0` for `Data`. -/
theorem length_zeroed (vals : Field → Bare) :
    (packet (Function.update vals .data (bare zero))).document.text.length +
      (vals .data).val.length = (packet vals).document.text.length + 1 := by
  obtain ⟨q, hfollow⟩ := follow_path vals .data
  have hlength := CSharpDocument.length_assign hfollow (bare zero)
  rwa [assign_path] at hlength

/-- What the decoder has built before it sets `Data`. -/
theorem exists_built (h : (packet vals).document.text.length < MAXPACKETSIZE)
    {data : List Char16} (hroom : MAXPACKETSIZE ≤ data.length) (beyond : List Char16) :
    ∃ e rest, Carries e (packet (Function.update vals .data (bare zero))).document ∧
      decode (feed (values (packet vals)) ++ beyond) newJsonData data =
        (setJsfileSingleValue (utf16 (vals .data) ++ 0 :: rest) [utf16 Field.data.name] e >>=
          fun d' => .ok (d', utf16 (vals .data) ++ 0 :: rest)) := by
  obtain ⟨zeroed, hzeroed⟩ : ∃ zeroed : Field → Bare,
      zeroed = Function.update vals .data (bare zero) := ⟨_, rfl⟩
  have hlength := length_zeroed vals
  have hpos := List.length_pos_of_ne_nil (vals .data).property.1
  rw [← hzeroed] at hlength ⊢
  have hshort : (packet zeroed).document.text.length < MAXPACKETSIZE := by omega
  have hinput : feed (values (packet vals)) ++ beyond =
      feed ((packet vals).inputs fun name => name = utf16 (ascii "Data")) ++
        (utf16 (vals .data) ++ 0 :: beyond) := by
    rw [values_packet, feed_append, List.append_assoc]
    simp [feed]
  have hbuild : buildDecoded (feed (values (packet vals)) ++ beyond) initTokenInfo
      newJsonData.content = _ := build_document (packet vals) (describes vals)
    (show (packet vals).rows.length ≤ 23 from Nat.le_succ 22) hinput (by
      rw [shown_packet, ← hzeroed]
      exact hshort.le.trans_eq List.length_replicate.symm)
  rw [shown_packet, ← hzeroed] at hbuild
  have hcontent : splice newJsonData.content 0 (utf16 (packet zeroed).document.text) =
      utf16 (packet zeroed).document.text ++ 0 ::
        List.replicate (MAXPACKETSIZE - (packet zeroed).document.text.length - 1) 0 := by
    have hrest : MAXPACKETSIZE - (packet zeroed).document.text.length =
        MAXPACKETSIZE - (packet zeroed).document.text.length - 1 + 1 := by omega
    rw [splice_zero, length_utf16, newJsonData, List.drop_replicate, hrest, List.replicate_succ]
    rfl
  have htokens : ∃ e, initToken { newJsonData with
      content := splice newJsonData.content 0 (utf16 (packet zeroed).document.text)
      contentSize := (packet zeroed).document.text.length } = .ok e ∧
        Carries e (packet zeroed).document :=
    CSharpDocument.exists_initToken hcontent (by
      dsimp only
      rw [hcontent, List.length_append, List.length_cons, List.length_replicate, length_utf16]
      omega) (few _)
  obtain ⟨e, hinit, hcarries⟩ := htokens
  have hvalue : (0 : Char16) ∉ utf16 (vals .data) :=
    CSharpReader.zero_notMem_utf16 (zero_notMem_bare _)
  have hputs : arrPuts data (utf16 (vals .data) ++ 0 :: beyond) = _ :=
    arrPuts_eq data (utf16 (vals .data)) beyond hvalue (by
      have hbrackets := congrArg List.length (text_document (packet zeroed))
      rw [List.length_cons] at hbrackets
      rw [length_utf16]
      omega)
  refine ⟨e, data.drop ((utf16 (vals .data)).length + 1), hcarries, ?_⟩
  rw [decode, hbuild, checked_ok, returned_bind]
  dsimp only
  rw [hinit, returned_bind, hinput, List.drop_left, hputs, checked_ok, returned_bind]
  rfl

theorem update_zeroed (vals : Field → Bare) (v : Bare) :
    Function.update (Function.update vals .data v) .data (vals .data) = vals := by
  rw [Function.update_idem, Function.update_eq_self]

/-- The decoder sets the value of `Data` if no other value is spelled `Data`. -/
theorem set_data {e : JsonData} {rest : List Char16}
    (he : Carries e (packet (Function.update vals .data (bare zero))).document)
    (hshort : (packet vals).document.text.length < MAXPACKETSIZE)
    (h : ∀ f ≠ .data, (vals f).val ≠ Field.data.name.val) :
    ∃ e', setJsfileSingleValue (utf16 (vals .data) ++ 0 :: rest) [utf16 Field.data.name] e =
      .ok e' ∧ Carries e' (packet vals).document := by
  have hother : ∀ f ≠ .data, (Function.update vals .data (bare zero) f).val ≠
      Field.data.name.val := by
    intro f hne
    rw [Function.update_of_ne hne]
    exact h f hne
  obtain ⟨q, hhit, hfollow⟩ := hitOf_data _ hother
  have hfind := CSharpDocument.findRange_cons hhit he []
  have hset := CSharpDocument.set_path he rfl rfl (List.cons_ne_nil _ _) hfollow hfind (vals .data)
    rest
  rw [assign_path, update_zeroed] at hset
  obtain ⟨e', hok⟩ := hset.1 hshort
  exact ⟨e', hok, hset.2 e' hok⟩

/-- Otherwise it sets a key, and the text has another length. -/
theorem set_other {e e' : JsonData} {rest : List Char16}
    (he : Carries e (packet (Function.update vals .data (bare zero))).document)
    (h : ∃ f ≠ .data, (vals f).val = Field.data.name.val)
    (hset : setJsfileSingleValue (utf16 (vals .data) ++ 0 :: rest) [utf16 Field.data.name] e =
      .ok e') : ∃ doc : Document, Carries e' doc ∧
        doc.text.length ≠ (packet vals).document.text.length := by
  have hother : ∃ f ≠ .data, (Function.update vals .data (bare zero) f).val =
      Field.data.name.val := by
    obtain ⟨f, hne, hvalue⟩ := h
    exact ⟨f, hne, by rw [Function.update_of_ne hne, hvalue]⟩
  obtain ⟨m, hm, hword, hlong, hhit⟩ := hitOf_other _ hother
  have hfind := CSharpDocument.findRange_cons hhit he []
  have hne := List.ne_nil_of_length_pos (Nat.lt_of_succ_lt hlong)
  obtain ⟨doc, front, behind, hold, -, hnew, hcarries⟩ := CSharpDocument.exists_set he rfl rfl hm
    hword hne (List.cons_ne_nil _ _) hfind (vals .data)
  refine ⟨doc, (hcarries rest).2 e' hset, ?_⟩
  have hlength := length_zeroed vals
  rw [hold] at hlength
  rw [hnew]
  simp only [List.length_append] at hlength ⊢
  omega

theorem textOf_carries {doc : Document} (h : Carries d doc) :
    GetAfterSet.textOf 0 d.content = utf16 doc.text := by
  obtain ⟨beyond, hcontent⟩ := h.content
  have hnul : (0 : Char16) ∉ utf16 doc.text :=
    CSharpReader.zero_notMem_utf16 doc.zero_notMem_text
  rw [hcontent]
  exact GetAfterSet.textOf_append hnul

/-- Packets with the same values give the same for every field. -/
theorem getPacketValue_congr (h : Carries d (packet vals).document)
    (h' : Carries d' (packet vals).document) (f : Field) (result : List Char16) :
    getPacketValue (f.path.map utf16) d' result = getPacketValue (f.path.map utf16) d result := by
  obtain ⟨q, hfollow⟩ := follow_path vals f
  have hself := (packet vals).document.value.self_mem_subvalues
    (packet vals).document.lead.val.length
  have hpath : f.path ≠ [] := by
    cases f <;> exact List.cons_ne_nil _ _
  have hvalue := CSharpDocument.findValue_congr h h' f.path hpath hself hfollow
    (clear_dropLast vals f) result
  obtain ⟨-, -, -, -, hall⟩ := h.root
  obtain ⟨-, -, -, -, hall'⟩ := h'.root
  rw [getPacketValue, getPacketValue, getJsfileValue, getJsfileValue, hall, hall', checked_ok,
    returned_bind, returned_bind, hvalue]

/-- The round trip of a packet with these values. -/
theorem roundTrip_packet (h : Carries d (packet vals).document) :
    RoundTrip d ↔ ∀ f ≠ .data, (vals f).val ≠ Field.data.name.val := by
  constructor
  · intro hround f hne hvalue
    have hroom : MAXPACKETSIZE ≤ (List.replicate MAXPACKETSIZE (0 : Char16)).length :=
      List.length_replicate.ge
    obtain ⟨out, n, hencode, hdecode⟩ := hround _ hroom
    obtain ⟨out', hencode', htake⟩ := encode_packet h hroom
    rw [hencode] at hencode'
    obtain ⟨rfl, rfl⟩ := Prod.mk.inj (Except.ok.inj hencode')
    obtain ⟨d', data', hok, htext, -⟩ := hdecode [] _ hroom
    obtain ⟨e, rest, he, hbuilt⟩ := exists_built h.short hroom []
    rw [htake, hbuilt] at hok
    obtain ⟨e', hset, hok⟩ := returned_eq_ok.mp hok
    obtain ⟨rfl, -⟩ := Prod.mk.inj (Except.ok.inj hok)
    obtain ⟨doc, hdoc, hlength⟩ := set_other he ⟨f, hne, hvalue⟩ hset
    rw [textOf_carries hdoc, textOf_carries h, CSharpDocument.utf16_inj] at htext
    exact hlength (congrArg List.length htext)
  · intro hother output houtput
    obtain ⟨out, hencode, htake⟩ := encode_packet h houtput
    refine ⟨out, _, hencode, fun beyond data hdata => ?_⟩
    obtain ⟨e, rest, he, hbuilt⟩ := exists_built h.short hdata beyond
    obtain ⟨d', hset, hcarries⟩ := set_data he h.short hother
    refine ⟨d', utf16 (vals .data) ++ 0 :: rest, ?_, ?_, getPacketValue_congr h hcarries⟩
    · rw [htake, hbuilt, hset, returned_bind]
    · rw [textOf_carries h, textOf_carries hcarries]

end

/-- For every packet that a run of calls leaves, which start from `init_json_packet` and each come
to their field: the packet is decoded from what the encoder writes, with the same text and the same
value for every field, exactly if no field but `Data` has the value `Data`. -/
theorem roundTrip_iff {d₀ d₁ : JsonData} {s : State} {calls : List Call}
    (hsize : d₀.content.length = MAXPACKETSIZE) (hinit : initJsonPacket d₀ = .ok d₁)
    (hrun : Run (Meeting Sets Reaches) ⟨d₁, fun _ => zero⟩ calls s) :
    RoundTrip s.jsonData ↔ ∀ f ≠ .data, (s.vals f).val ≠ ascii "Data" :=
  roundTrip_packet (holds_run hsize hinit hrun)

def dataWord : Plain := ⟨ascii "Data", by decide +kernel⟩

/-- A new packet in which one field is set. -/
theorem exists_single (f : Field) (v : Plain)
    (hroom : (packet fun g => bare (Function.update (fun _ => zero) f v g)).document.text.length <
      MAXPACKETSIZE) :
    ∃ d₁ d₂, initJsonPacket newJsonData = .ok d₁ ∧ Meeting Sets Reaches ⟨d₁, fun _ => zero⟩
      ⟨f, v, []⟩ ⟨d₂, Function.update (fun _ => zero) f v⟩ := by
  have hsize : newJsonData.content.length = MAXPACKETSIZE := List.length_replicate
  obtain ⟨d₁, hinit, hholds⟩ := exists_init hsize
  have hname : ∀ f : Field, zero.val ≠ f.name.val := by
    intro f
    cases f <;> decide
  obtain ⟨d₂, hstep⟩ := exists_step hholds (c := ⟨f, v, []⟩) (fun g _ => hname f) hroom
  exact ⟨d₁, d₂, hinit, hstep⟩

/-- The word `Data` as the value of `Data`. -/
theorem roundTrip_data : ∃ d₁ d₂, initJsonPacket newJsonData = .ok d₁ ∧
    Run (Meeting Sets Reaches) ⟨d₁, fun _ => zero⟩ [⟨.data, dataWord, []⟩]
      ⟨d₂, Function.update (fun _ => zero) .data dataWord⟩ ∧ RoundTrip d₂ := by
  obtain ⟨d₁, d₂, hinit, hstep⟩ := exists_single .data dataWord (by decide +kernel)
  have hrun := (Run.nil _).snoc hstep
  refine ⟨d₁, d₂, hinit, hrun, (roundTrip_iff List.length_replicate hinit hrun).mpr ?_⟩
  intro f hne
  have hvalue : Function.update (fun _ => zero) Field.data dataWord f = zero :=
    Function.update_of_ne hne _ _
  change (Function.update (fun _ => zero) Field.data dataWord f).val ≠ ascii "Data"
  rw [hvalue]
  decide

/-- The word `Data` as the magic number. -/
theorem roundTrip_magicNumber : ∃ d₁ d₂, initJsonPacket newJsonData = .ok d₁ ∧
    Run Sets ⟨d₁, fun _ => zero⟩ [⟨.magicNumber, dataWord, []⟩]
      ⟨d₂, Function.update (fun _ => zero) .magicNumber dataWord⟩ ∧ ¬ RoundTrip d₂ := by
  obtain ⟨d₁, d₂, hinit, hstep⟩ := exists_single .magicNumber dataWord (by decide +kernel)
  have hholds := holds_run List.length_replicate hinit ((Run.nil _).snoc hstep)
  refine ⟨d₁, d₂, hinit, (Run.nil _).snoc hstep.1, fun hround => ?_⟩
  exact (roundTrip_packet hholds).mp hround .magicNumber nofun rfl

end IoTRepublic.PacketCodec
