import IoTRepublic.XBeeFrames

/-!
What comes over the line: frames, frames that were cut off and noise between
them. Every frame with the right checksum that begins where no other is open is
reported, once and in order. A frame that is cut off costs itself and the frame
behind it, whose start byte ends it. What is reported was on the line, between
its start byte and its checksum.
-/
namespace IoTRepublic.XBeeLine

open CheckedArray Package Stuffing XBeeApiMode XBeeFrames

/-- The bytes of a frame between the start byte and the checksum, before they are stuffed. -/
def frameFront (msb : Byte) (frame : ApiFrame) : List Byte :=
  msb :: UInt8.ofNat (frame.data.length + 1) :: frame.apiId :: frame.data

def frameBody (msb : Byte) (frame : ApiFrame) (checksum : Byte) : List Byte :=
  frameFront msb frame ++ [checksum]

/-- The high byte of the length and the checksum of a frame are what the line makes of them. -/
inductive Segment
  | noise (bytes : List Byte)
  | frame (msb : Byte) (frame : ApiFrame) (checksum : Byte)
  | cut (msb : Byte) (frame : ApiFrame) (checksum : Byte) (n : ℕ)
  deriving DecidableEq

namespace Segment

/-- A frame is cut between two bytes, not behind an escape. -/
def bytes : Segment → List Byte
  | noise bytes => bytes
  | frame msb f checksum => START_BYTE :: apiScheme.stuff (frameBody msb f checksum)
  | cut msb f checksum n => START_BYTE :: apiScheme.stuff ((frameBody msb f checksum).take n)

end Segment

/-- Whether the checksum of a frame is right. -/
def Right (frame : ApiFrame) (checksum : Byte) : Prop :=
  total (frame.apiId :: frame.data ++ [checksum]) = 0xff

instance (frame : ApiFrame) (checksum : Byte) : Decidable (Right frame checksum) :=
  inferInstanceAs (Decidable (_ = _))

/-- The checksum that makes the sum of a frame right. -/
def checksumOf (frame : ApiFrame) : Byte := 0xff - total (frame.apiId :: frame.data)

theorem right_checksumOf (frame : ApiFrame) : Right frame (checksumOf frame) := by
  rw [Right, total_append, checksumOf, total_cons _ [], total_nil, UInt8.add_zero, UInt8.add_comm]
  exact UInt8.sub_add_cancel ..

/-- A frame as it is sent. -/
def Segment.sent (frame : ApiFrame) : Segment := .frame 0 frame (checksumOf frame)

/-- Noise has no start byte and stands outside the frames; what is cut off lacks a byte at
least. `isOpen` says that the frame before was cut off. -/
def Wellformed : Bool → List Segment → Prop
  | _, [] => True
  | isOpen, .noise bytes :: rest => isOpen = false ∧ START_BYTE ∉ bytes ∧ Wellformed false rest
  | _, .frame _ _ _ :: rest => Wellformed false rest
  | isOpen, .cut msb f checksum n :: rest =>
    n < (frameBody msb f checksum).length ∧ Wellformed (!isOpen) rest

instance decidableWellformed : (isOpen : Bool) → (segments : List Segment) →
    Decidable (Wellformed isOpen segments)
  | _, [] => inferInstanceAs (Decidable True)
  | isOpen, .noise bytes :: rest =>
    have := decidableWellformed false rest
    inferInstanceAs (Decidable (isOpen = false ∧ START_BYTE ∉ bytes ∧ Wellformed false rest))
  | _, .frame _ _ _ :: rest => decidableWellformed false rest
  | isOpen, .cut msb f checksum n :: rest =>
    have := decidableWellformed (!isOpen) rest
    inferInstanceAs (Decidable (n < (frameBody msb f checksum).length ∧
      Wellformed (!isOpen) rest))

/-- The frames that are expected. -/
def delivered : Bool → List Segment → List ApiFrame
  | _, [] => []
  | isOpen, .noise _ :: rest => delivered isOpen rest
  | true, .frame _ _ _ :: rest => delivered false rest
  | false, .frame _ f checksum :: rest =>
    (if Right f checksum then [f] else []) ++ delivered false rest
  | isOpen, .cut _ _ _ _ :: rest => delivered (!isOpen) rest

section

variable {msb checksum : Byte} {f : ApiFrame}

/-- Before its end the reader knows the bytes of the frame so far. -/
theorem take_frameBody {front behind : List Byte} {b : Byte}
    (hbody : frameBody msb f checksum = front ++ b :: behind) (hbehind : behind ≠ []) :
    Phase.take front b = .inside (front ++ [b]) := by
  by_cases hfront : front.length < 3
  · exact take_front hfront b
  · match front, hfront with
    | m :: lsb :: apiId :: data, _ =>
      have hlength := congrArg List.length hbody
      have hpos := List.length_pos_iff.mpr hbehind
      simp only [frameBody, frameFront, List.cons_append, List.cons.injEq] at hbody
      simp only [frameBody, frameFront, List.cons_append, List.length_cons, List.length_append,
        List.length_nil] at hlength
      have hshort := f.short
      have hlsb : lsb.toNat = f.data.length + 1 := by
        rw [← hbody.2.1, UInt8.toNat_ofNat']
        omega
      rw [Phase.take, dif_pos (by omega), if_neg (by omega)]
    | [], hfront => simp at hfront
    | [_], hfront => simp at hfront
    | [_, _], hfront => simp at hfront

/-- The last byte completes the frame if it is the checksum. -/
theorem take_checksum (msb : Byte) (f : ApiFrame) (checksum : Byte) :
    Phase.take (frameFront msb f) checksum =
      if Right f checksum then .completed f else .rejected := by
  have hshort := f.short
  have hlsb : f.data.length + 1 = (UInt8.ofNat (f.data.length + 1)).toNat := by
    rw [UInt8.toNat_ofNat']
    omega
  rw [frameFront, Phase.take, dif_pos f.short, if_pos hlsb]
  rfl

/-- A beginning of a frame leads the reader behind it, and nothing is reported. -/
theorem reads_beginning {front todo behind : List Byte}
    (hbody : frameBody msb f checksum = front ++ todo ++ behind) (hbehind : behind ≠ []) :
    (apiScheme.stuff todo).foldl Phase.step (.inside front) = .inside (front ++ todo) ∧
      Phase.reports (.inside front) (apiScheme.stuff todo) = [] ∧
      Phase.Clean (.inside front) (apiScheme.stuff todo) := by
  induction todo generalizing front with
  | nil => exact ⟨by simp, rfl, trivial⟩
  | cons b todo ih =>
    have hsplit : frameBody msb f checksum = front ++ b :: (todo ++ behind) := by
      simpa using hbody
    have htake := take_frameBody hsplit (by simp [hbehind])
    have hone := apiScheme_reads.foldl_stuffOne front b
    have hrest : frameBody msb f checksum = front ++ [b] ++ todo ++ behind := by simpa using hbody
    obtain ⟨hfold, hreports, hclean⟩ := ih hrest
    rw [htake] at hone
    refine ⟨?_, ?_, ?_⟩
    · rw [Scheme.stuff_cons, List.foldl_append, hone, hfold]
      simp
    · have hreport : Phase.reports (.inside front) (apiScheme.stuffOne b) = _ :=
        apiScheme_reads.reported_stuffOne (fun _ => rfl) front b
      rw [htake] at hreport
      rw [Scheme.stuff_cons, Phase.reports_append, hone, hreport, hreports]
      rfl
    · rw [Scheme.stuff_cons, Phase.clean_append, hone]
      exact ⟨Phase.clean_stuffOne front b, hclean⟩

/-- A whole frame is reported if its checksum is right. -/
theorem reads_frame (msb : Byte) (f : ApiFrame) (checksum : Byte) :
    (apiScheme.stuff (frameBody msb f checksum)).foldl Phase.step (.inside []) =
        (if Right f checksum then .completed f else .rejected) ∧
      Phase.reports (.inside []) (apiScheme.stuff (frameBody msb f checksum)) =
        (if Right f checksum then [f] else []) ∧
      Phase.Clean (.inside []) (apiScheme.stuff (frameBody msb f checksum)) := by
  have hsplit : frameBody msb f checksum = [] ++ frameFront msb f ++ [checksum] := rfl
  have hstuff : apiScheme.stuff (frameBody msb f checksum) =
      apiScheme.stuff (frameFront msb f) ++ apiScheme.stuffOne checksum := by
    rw [frameBody, Scheme.stuff_append, Scheme.stuff_cons, Scheme.stuff_nil, List.append_nil]
  obtain ⟨hfold, hreports, hclean⟩ := reads_beginning hsplit (by simp)
  rw [List.nil_append] at hfold
  have hone := apiScheme_reads.foldl_stuffOne (frameFront msb f) checksum
  have hreport : Phase.reports (.inside (frameFront msb f)) (apiScheme.stuffOne checksum) = _ :=
    apiScheme_reads.reported_stuffOne (fun _ => rfl) (frameFront msb f) checksum
  rw [take_checksum] at hone hreport
  refine ⟨?_, ?_, ?_⟩
  · rw [hstuff, List.foldl_append, hfold, hone]
  · rw [hstuff, Phase.reports_append, hfold, hreport, hreports]
    split <;> rfl
  · rw [hstuff, Phase.clean_append, hfold]
    exact ⟨hclean, Phase.clean_stuffOne _ _⟩

end

/-- Where the reader stands between two segments. -/
def StandsAt : Bool → Phase → Prop
  | true, phase => ∃ body, phase = .inside body
  | false, phase => phase.settle = .idle

section

variable {phase : Phase} {bytes : List Byte}

/-- Outside a frame it does not matter how the frame before has ended. -/
theorem reads_outside (h : phase.settle = .idle) (hclean : Phase.Clean .idle bytes) :
    (bytes.foldl Phase.step phase).settle = (bytes.foldl Phase.step .idle).settle ∧
      phase.reports bytes = Phase.reports .idle bytes ∧ phase.Clean bytes := by
  refine ⟨?_, ?_, ?_⟩
  · rw [← Phase.foldl_settle, h]
  · rw [← Phase.reports_settle, h]
  · cases bytes with
    | nil => trivial
    | cons b bytes =>
      refine ⟨?_, ?_⟩
      · rintro ⟨body, rfl⟩
        cases h
      · rw [← Phase.step_settle, h]
        exact hclean.2

/-- A start byte outside a frame opens one. -/
theorem reads_start (h : phase.settle = .idle) (hclean : Phase.Clean (.inside []) bytes) :
    (START_BYTE :: bytes).foldl Phase.step phase = bytes.foldl Phase.step (.inside []) ∧
      phase.reports (START_BYTE :: bytes) = Phase.reports (.inside []) bytes ∧
      phase.Clean (START_BYTE :: bytes) := by
  have hstep : phase.step START_BYTE = .inside [] := by
    rw [Phase.step_outside h, if_pos rfl]
  refine ⟨?_, ?_, ?_, ?_⟩
  · rw [List.foldl_cons, hstep]
  · rw [Phase.reports_cons, hstep]
    rfl
  · rintro ⟨body, rfl⟩
    cases h
  · rw [hstep]
    exact hclean

/-- A start byte inside a frame ends the frame and opens none. -/
theorem reads_unexpected (body : List Byte) (h : START_BYTE ∉ bytes) :
    ((START_BYTE :: bytes).foldl Phase.step (.inside body)).settle = .idle ∧
      Phase.reports (.inside body) (START_BYTE :: bytes) = [] ∧
      Phase.Clean (.inside body) (START_BYTE :: bytes) := by
  obtain ⟨hfold, hreports, hclean⟩ := Phase.skips h
  have hrejected : Phase.settle .rejected = .idle := rfl
  obtain ⟨hfold', hreports', hclean'⟩ := reads_outside hrejected hclean
  have hstep : Phase.step (.inside body) START_BYTE = .rejected := rfl
  refine ⟨?_, ?_, ?_, ?_⟩
  · rw [List.foldl_cons, hstep, hfold', hfold]
    rfl
  · rw [Phase.reports_cons, hstep, hreports', hreports]
    rfl
  · rintro ⟨body', hbody'⟩
    cases hbody'
  · exact hclean'

end

/-- A segment leads the reader behind it and reports the frame that is expected of it. -/
theorem reads_segment {isOpen : Bool} {phase : Phase} {segment : Segment} {rest : List Segment}
    (hwell : Wellformed isOpen (segment :: rest)) (hat : StandsAt isOpen phase) :
    ∃ isOpen', Wellformed isOpen' rest ∧
      StandsAt isOpen' (segment.bytes.foldl Phase.step phase) ∧ phase.Clean segment.bytes ∧
      delivered isOpen (segment :: rest) =
        phase.reports segment.bytes ++ delivered isOpen' rest := by
  cases segment with
  | noise bytes =>
    obtain ⟨rfl, hstart, hrest⟩ := hwell
    obtain ⟨hfold, hreports, hclean⟩ := Phase.skips hstart
    obtain ⟨hfold', hreports', hclean'⟩ := reads_outside hat hclean
    refine ⟨false, hrest, ?_, hclean', ?_⟩
    · exact hfold'.trans (by rw [hfold]; rfl)
    · rw [delivered, Segment.bytes, hreports', hreports, List.nil_append]
  | frame msb f checksum =>
    cases isOpen with
    | false =>
      obtain ⟨hfold, hreports, hclean⟩ := reads_frame msb f checksum
      obtain ⟨hfold', hreports', hclean'⟩ := reads_start hat hclean
      refine ⟨false, hwell, ?_, hclean', ?_⟩
      · rw [Segment.bytes, hfold', hfold]
        split <;> rfl
      · rw [delivered, Segment.bytes, hreports', hreports]
    | true =>
      obtain ⟨body, rfl⟩ := hat
      obtain ⟨hfold, hreports, hclean⟩ := reads_unexpected body (start_notMem_stuff _)
      refine ⟨false, hwell, hfold, hclean, ?_⟩
      rw [delivered, Segment.bytes, hreports, List.nil_append]
  | cut msb f checksum n =>
    obtain ⟨hn, hrest⟩ := hwell
    cases isOpen with
    | false =>
      have hsplit : frameBody msb f checksum = [] ++ (frameBody msb f checksum).take n ++
          (frameBody msb f checksum).drop n := by simp
      obtain ⟨hfold, hreports, hclean⟩ := reads_beginning hsplit (by
        rw [ne_eq, List.drop_eq_nil_iff]
        omega)
      obtain ⟨hfold', hreports', hclean'⟩ := reads_start hat hclean
      refine ⟨true, hrest, ⟨_, by rw [Segment.bytes, hfold', hfold]⟩, hclean', ?_⟩
      rw [delivered, Segment.bytes, hreports', hreports, List.nil_append, Bool.not_false]
    | true =>
      obtain ⟨body, rfl⟩ := hat
      obtain ⟨hfold, hreports, hclean⟩ := reads_unexpected body (start_notMem_stuff _)
      refine ⟨false, hrest, hfold, hclean, ?_⟩
      rw [delivered, Segment.bytes, hreports, List.nil_append, Bool.not_true]

/-- The reader reports the expected frames, and no byte behind an escape is in the way. -/
theorem reads_segments {isOpen : Bool} {phase : Phase} {segments : List Segment}
    (hwell : Wellformed isOpen segments) (hat : StandsAt isOpen phase) :
    phase.Clean (segments.flatMap Segment.bytes) ∧
      phase.reports (segments.flatMap Segment.bytes) = delivered isOpen segments := by
  induction segments generalizing isOpen phase with
  | nil => exact ⟨trivial, by simp [delivered]⟩
  | cons segment rest ih =>
    obtain ⟨isOpen', hrest, hat', hclean, hdelivered⟩ := reads_segment hwell hat
    obtain ⟨hcleanRest, hreports⟩ := ih hrest hat'
    rw [List.flatMap_cons]
    refine ⟨(Phase.clean_append ..).mpr ⟨hclean, hcleanRest⟩, ?_⟩
    rw [Phase.reports_append, hreports, hdelivered]

/-- From outside a frame enough calls report the expected frames. -/
theorem listen_segments {xbee : XBee} (h : Represents xbee .idle) {segments : List Segment}
    (hwell : Wellformed false segments) {polls : List (Option Byte)}
    (hbytes : bytesOf polls = segments.flatMap Segment.bytes) {n : ℕ} (hn : polls.length ≤ n) :
    ∃ xbee', xbee.listen n polls =
      .ok (xbee', [], (delivered false segments).map ApiFrame.packet) := by
  have hidle : StandsAt false .idle := rfl
  obtain ⟨hclean, hreports⟩ := reads_segments hwell hidle
  rw [← hbytes] at hclean hreports
  rw [← hreports]
  exact listen_all h hn hclean

/-- However the bytes are spread over the polls, enough calls of `readPacket` report the frames
that have the right checksum and do not begin inside another, once each and in order. -/
theorem listen_delivers (response : XBeeResponse) (frameData : CharArray MAX_FRAME_DATA_SIZE)
    (segments : List Segment) (hwell : Wellformed false segments) (polls : List (Option Byte))
    (hbytes : bytesOf polls = segments.flatMap Segment.bytes) (n : ℕ) (hn : polls.length ≤ n) :
    ∃ xbee, (XBee.new response frameData).listen n polls =
      .ok (xbee, [], (delivered false segments).map ApiFrame.packet) :=
  listen_segments (represents_new response frameData) hwell hbytes hn

/-- A frame with a start byte and an escape in its data, cut off once, sent with a wrong
checksum once, with an escape as noise in front and a poll in vain behind. -/
theorem listen_delivers_noisy :
    ∃ f : ApiFrame, f.packet = (AT_COMMAND_RESPONSE, [1, START_BYTE, ESCAPE]) ∧
      ∃ segments polls, segments = [.noise [ESCAPE], .sent f, .cut 0 f (checksumOf f) 4, .sent f,
          .frame 0 f 0, .sent f] ∧
        polls = (segments.flatMap Segment.bytes).map some ++ [none] ∧
        ∃ xbee, XBee.global.listen polls.length polls = .ok (xbee, [], [f.packet, f.packet]) := by
  let f : ApiFrame := ⟨AT_COMMAND_RESPONSE, [1, START_BYTE, ESCAPE], by decide⟩
  let segments : List Segment := [.noise [ESCAPE], .sent f, .cut 0 f (checksumOf f) 4, .sent f,
    .frame 0 f 0, .sent f]
  have hbytes : bytesOf ((segments.flatMap Segment.bytes).map some ++ [none]) =
      segments.flatMap Segment.bytes := by simp [bytesOf]
  have hdelivered : (delivered false segments).map ApiFrame.packet = [f.packet, f.packet] := by
    decide
  refine ⟨f, rfl, segments, _, rfl, rfl, ?_⟩
  rw [← hdelivered]
  exact listen_delivers _ _ segments (by decide) _ hbytes _ le_rfl

/-- The frame stands on the line between a start byte and its checksum, and the checksum is right. -/
def OnLine (bytes : List Byte) (frame : ApiFrame) : Prop :=
  ∃ front msb stuffed checksum behind, bytes = front ++ START_BYTE :: stuffed ++ behind ∧
    START_BYTE ∉ stuffed ∧
    apiScheme.unstuff stuffed = (frameBody msb frame checksum, false) ∧ Right frame checksum

/-- The bytes of an unfinished frame are the last on the line. -/
def Open (bytes body : List Byte) (marked : Bool) : Prop :=
  ∃ front stuffed, bytes = front ++ START_BYTE :: stuffed ∧ START_BYTE ∉ stuffed ∧
    apiScheme.unstuff stuffed = (body, marked)

/-- What is known of the bytes that have led the reader to a phase. -/
def Traced (bytes : List Byte) : Phase → Prop
  | .inside body => Open bytes body false
  | .marked body => Open bytes body true
  | .completed frame => OnLine bytes frame
  | _ => True

section

variable {bytes body behind : List Byte} {b : Byte} {phase : Phase} {frame : ApiFrame}

theorem OnLine.append (h : OnLine bytes frame) (behind : List Byte) :
    OnLine (bytes ++ behind) frame := by
  obtain ⟨front, msb, stuffed, checksum, rest, rfl, hframe⟩ := h
  exact ⟨front, msb, stuffed, checksum, rest ++ behind, by simp, hframe⟩

theorem Open.next {marked : Bool} (h : Open bytes body marked) (hb : b ≠ START_BYTE) :
    Open (bytes ++ [b]) (apiScheme.unmask (body, marked) b).1
      (apiScheme.unmask (body, marked) b).2 := by
  obtain ⟨front, stuffed, rfl, hstart, hunstuff⟩ := h
  refine ⟨front, stuffed ++ [b], by simp, by simpa using ⟨hstart, Ne.symm hb⟩, ?_⟩
  rw [Scheme.unstuff, List.foldl_append, ← Scheme.unstuff, hunstuff]
  rfl

/-- A taken byte leaves a longer unfinished frame or completes the one on the line. -/
theorem traced_take (h : Open bytes (body ++ [b]) false) : Traced bytes (Phase.take body b) := by
  by_cases hbody : body.length < 3
  · rw [take_front hbody]
    exact h
  · match body, hbody with
    | msb :: lsb :: apiId :: data, _ =>
      rw [Phase.take]
      by_cases hshort : data.length ≤ 106
      · rw [dif_pos hshort]
        by_cases hend : data.length + 1 = lsb.toNat
        · rw [if_pos hend]
          by_cases hright : total (apiId :: data ++ [b]) = 0xff
          · rw [if_pos hright]
            obtain ⟨front, stuffed, rfl, hstart, hunstuff⟩ := h
            refine ⟨front, msb, stuffed, b, [], by simp, hstart, ?_, hright⟩
            rw [hunstuff, frameBody, frameFront, hend, UInt8.ofNat_toNat]
          · rw [if_neg hright]
            trivial
        · rw [if_neg hend]
          exact h
      · rw [dif_neg hshort]
        trivial
    | [], hbody => simp at hbody
    | [_], hbody => simp at hbody
    | [_, _], hbody => simp at hbody

/-- One more byte, which is no start byte and no escape if it stands behind an escape. -/
theorem Traced.step (h : Traced bytes phase)
    (hclean : (∃ body, phase = .marked body) → b ≠ START_BYTE ∧ b ≠ ESCAPE) :
    Traced (bytes ++ [b]) (phase.step b) := by
  have houtside : phase.settle = .idle → Traced (bytes ++ [b]) (phase.step b) := by
    intro hsettle
    rw [Phase.step_outside hsettle]
    by_cases hstart : b = START_BYTE
    · rw [if_pos hstart, hstart]
      exact ⟨bytes, [], rfl, by simp, rfl⟩
    · rw [if_neg hstart]
      trivial
  cases phase with
  | idle => exact houtside rfl
  | completed => exact houtside rfl
  | rejected => exact houtside rfl
  | inside body =>
    rw [Phase.step_inside]
    by_cases hstart : b = START_BYTE
    · rw [if_pos hstart]
      trivial
    have hnext := Open.next h hstart
    rw [if_neg hstart]
    by_cases hescape : b = ESCAPE
    · have hmarked : apiScheme.unmask (body, false) b = (body, true) := by
        simp [Scheme.unmask, hescape, apiScheme]
      rw [hmarked] at hnext
      rw [if_pos hescape]
      exact hnext
    · have hplain : apiScheme.unmask (body, false) b = (body ++ [b], false) := by
        simp [Scheme.unmask, hescape, apiScheme]
      rw [hplain] at hnext
      rw [if_neg hescape]
      exact traced_take hnext
  | marked body =>
    obtain ⟨hstart, -⟩ := hclean ⟨body, rfl⟩
    have hnext := Open.next h hstart
    rw [Phase.step_marked, if_neg hstart]
    exact traced_take hnext

/-- Every reported frame is on the line. -/
theorem onLine_of_mem_reports (h : Traced bytes phase) (hclean : phase.Clean behind)
    (hframe : frame ∈ phase.reports behind) : OnLine (bytes ++ behind) frame := by
  induction behind generalizing bytes phase with
  | nil => cases hframe
  | cons b behind ih =>
    have hstep := h.step hclean.1
    have hline : bytes ++ b :: behind = bytes ++ [b] ++ behind := by simp
    rw [hline]
    rcases List.mem_append.mp hframe with hhere | hlater
    · cases hphase : phase.step b with
      | completed f =>
        rw [hphase] at hstep hhere
        obtain rfl := List.mem_singleton.mp hhere
        exact hstep.append behind
      | _ =>
        rw [hphase] at hhere
        cases hhere
    · exact ih hstep hclean.2 hlater

/-- Only an escape is marked. -/
theorem eq_escape_of_marked (h : phase.step b = .marked body) : b = ESCAPE := by
  have htake : ∀ front c, Phase.take front c ≠ .marked body := by
    intro front c htake
    unfold Phase.take at htake
    split at htake
    · split at htake
      · split at htake
        · split at htake <;> cases htake
        · cases htake
      · cases htake
    · cases htake
  have houtside : phase.settle = .idle → phase.step b ≠ .marked body := by
    intro hsettle hmarked
    rw [Phase.step_outside hsettle] at hmarked
    split at hmarked <;> cases hmarked
  cases phase with
  | idle => exact absurd h (houtside rfl)
  | completed => exact absurd h (houtside rfl)
  | rejected => exact absurd h (houtside rfl)
  | inside front =>
    rw [Phase.step_inside] at h
    by_contra hescape
    rw [if_neg hescape] at h
    split at h
    · cases h
    · exact htake _ _ h
  | marked front =>
    rw [Phase.step_marked] at h
    split at h
    · cases h
    · exact absurd h (htake _ _)

end

/-- No start byte and no escape stands behind an escape. -/
def Unambiguous (bytes : List Byte) : Prop :=
  bytes.IsChain (fun b c => b = ESCAPE → c ≠ START_BYTE ∧ c ≠ ESCAPE)

instance (bytes : List Byte) : Decidable (Unambiguous bytes) :=
  inferInstanceAs (Decidable (List.IsChain _ bytes))

theorem Unambiguous.clean {bytes : List Byte} (h : Unambiguous bytes) {phase : Phase}
    (hfirst : ∀ b ∈ bytes.head?, (∃ body, phase = .marked body) → b ≠ START_BYTE ∧ b ≠ ESCAPE) :
    phase.Clean bytes := by
  induction bytes generalizing phase with
  | nil => trivial
  | cons b bytes ih =>
    cases bytes with
    | nil => exact ⟨hfirst b rfl, trivial⟩
    | cons c bytes =>
      obtain ⟨hhere, hrest⟩ := List.isChain_cons_cons.mp h
      refine ⟨hfirst b rfl, ih hrest ?_⟩
      rintro d hd ⟨body, hbody⟩
      obtain rfl : c = d := by simpa using hd
      exact hhere (eq_escape_of_marked hbody)

theorem Unambiguous.clean_idle {bytes : List Byte} (h : Unambiguous bytes) :
    Phase.Clean .idle bytes := by
  apply h.clean
  rintro b - ⟨body, hbody⟩
  cases hbody

/-- The packets do not depend on how the bytes are spread over the polls. -/
theorem listen_eq_of_bytes (response : XBeeResponse) (frameData : CharArray MAX_FRAME_DATA_SIZE)
    (polls polls' : List (Option Byte)) (hbytes : bytesOf polls = bytesOf polls')
    (hline : Unambiguous (bytesOf polls)) (n n' : ℕ) (hn : polls.length ≤ n)
    (hn' : polls'.length ≤ n') :
    ∃ xbee xbee' packets,
      (XBee.new response frameData).listen n polls = .ok (xbee, [], packets) ∧
      (XBee.new response frameData).listen n' polls' = .ok (xbee', [], packets) := by
  have hnew := represents_new response frameData
  obtain ⟨xbee, hlisten⟩ := listen_all hnew hn hline.clean_idle
  obtain ⟨xbee', hlisten'⟩ := listen_all hnew hn' (hbytes ▸ hline).clean_idle
  rw [← hbytes] at hlisten'
  exact ⟨xbee, xbee', _, hlisten, hlisten'⟩

/-- One byte a poll, with a poll in vain behind each, or all bytes at once. -/
theorem listen_eq_of_bytes_spread :
    ∃ xbee xbee' packets,
      XBee.global.listen 14
        [some START_BYTE, none, some 0, none, some 1, none, some ESCAPE, none, some 0x5e, none,
          some 0x81, none] = .ok (xbee, [], packets) ∧
      XBee.global.listen 6
        [some START_BYTE, some 0, some 1, some ESCAPE, some 0x5e, some 0x81] =
          .ok (xbee', [], packets) :=
  listen_eq_of_bytes _ _ _ _ (by decide) (by decide) 14 6 (by decide) (by decide)

/-- What `readPacket` reports was on the line with its length and the right checksum. -/
theorem listen_onLine (response : XBeeResponse) (frameData : CharArray MAX_FRAME_DATA_SIZE)
    (polls : List (Option Byte)) (hline : Unambiguous (bytesOf polls)) (n : ℕ) :
    ∃ xbee polls' packets,
      (XBee.new response frameData).listen n polls = .ok (xbee, polls', packets) ∧
      ∀ p ∈ packets, ∃ frame : ApiFrame, p = frame.packet ∧ OnLine (bytesOf polls) frame := by
  obtain ⟨xbee, polls', phase', packets, hlisten, -, -, hreports⟩ :=
    listen_reports (represents_new response frameData) n polls
  refine ⟨xbee, polls', packets, hlisten, ?_⟩
  intro p hp
  obtain ⟨-, heq⟩ := hreports hline.clean_idle
  have hmem : p ∈ (Phase.reports .idle (bytesOf polls)).map ApiFrame.packet := by
    rw [heq]
    exact List.mem_append_left _ hp
  obtain ⟨frame, hframe, rfl⟩ := List.mem_map.mp hmem
  have hnothing : Traced [] .idle := trivial
  exact ⟨frame, rfl, onLine_of_mem_reports hnothing hline.clean_idle hframe⟩

theorem listen_onLine_escaped :
    ∃ xbee polls' packets,
      XBee.global.listen 1 [some START_BYTE, some 0, some 1, some ESCAPE, some 0x5e, some 0x81] =
        .ok (xbee, polls', packets) ∧
      ∀ p ∈ packets, ∃ frame : ApiFrame, p = frame.packet ∧
        OnLine [START_BYTE, 0, 1, ESCAPE, 0x5e, 0x81] frame :=
  listen_onLine _ _ [some START_BYTE, some 0, some 1, some ESCAPE, some 0x5e, some 0x81]
    (by decide) 1

/-- A call of `readPacket` with what the polls give from then on. -/
def Reads (xbee : XBee) (polls : List (Option Byte)) (xbee' : XBee) : Prop :=
  ∃ polls', xbee.readPacket polls = .ok (xbee', polls')

/-- Whatever comes over the line, the array is not overrun, and an available packet has the
length and the checksum that came with it. -/
theorem reads_inside (response : XBeeResponse) (frameData : CharArray MAX_FRAME_DATA_SIZE)
    {pollss : List (List (Option Byte))} {xbee : XBee}
    (hrun : Runs.Run Reads (XBee.new response frameData) pollss xbee) :
    (∀ polls, ∃ xbee', Reads xbee polls xbee') ∧
    xbee.pos.toNat ≤ MAX_FRAME_DATA_SIZE + 1 ∧
    xbee.responseFrameData.length = MAX_FRAME_DATA_SIZE ∧
    (xbee.response.isAvailable = true → xbee.response.isError = false ∧
      xbee.response.frameLength.toNat ≤ 106 ∧
      xbee.response.getPacketLength = xbee.response.frameLength.toNat + 1 ∧
      total (xbee.response.apiId :: xbee.responseFrameData.take xbee.response.frameLength.toNat ++
        [xbee.response.checksum]) = 0xff) := by
  have hrep : ∃ phase, Represents xbee phase := by
    refine hrun.invariant (fun xbee => ∃ phase, Represents xbee phase) ?_
      ⟨.idle, represents_new response frameData⟩
    rintro xbee polls xbee' ⟨phase, hrep⟩ ⟨polls', hread⟩
    obtain ⟨xbee₁, polls₁, phase₁, hread₁, hrep₁, -, -⟩ := readPacket_reports hrep polls
    rw [hread] at hread₁
    obtain ⟨rfl, -⟩ := Prod.mk.inj (Except.ok.inj hread₁)
    exact ⟨phase₁, hrep₁⟩
  obtain ⟨phase, hrep⟩ := hrep
  refine ⟨?_, ?_, hrep.size, ?_⟩
  · intro polls
    obtain ⟨xbee', polls', phase', hread, -⟩ := readPacket_reports hrep polls
    exact ⟨xbee', polls', hread⟩
  · cases hrep with
    | idle _ _ _ hpos => simp [hpos]
    | inside h => exact h.pos.le.trans (Nat.succ_le_succ h.length_le)
    | marked h => exact h.pos.le.trans (Nat.succ_le_succ h.length_le)
    | completed _ _ _ _ _ _ _ _ hpos => simp [hpos]
    | rejected _ _ _ hpos => exact hpos
  · intro havailable
    obtain ⟨frame, rfl⟩ := hrep.isAvailable.mp havailable
    cases hrep with
    | completed _ _ hlsb hframeLength hapiId hdata htotal herror _ =>
      refine ⟨by simp [XBeeResponse.isError, herror], hframeLength ▸ frame.short, ?_, ?_⟩
      · rw [getPacketLength_eq, hlsb, hframeLength]
      · rw [hapiId, hframeLength, hdata]
        exact htotal

/-- An escape in front of an escape, cut there by a poll in vain. -/
theorem reads_inside_doubled :
    ∃ xbee, Runs.Run Reads XBee.global
        [[some START_BYTE, some 0, some ESCAPE], [some ESCAPE, some START_BYTE]] xbee ∧
      xbee.pos.toNat ≤ MAX_FRAME_DATA_SIZE + 1 := by
  obtain ⟨xbee, hread⟩ := (reads_inside _ _ (Runs.Run.nil XBee.global)).1
    [some START_BYTE, some 0, some ESCAPE]
  have hrun := (Runs.Run.nil XBee.global).snoc hread
  obtain ⟨xbee', hread'⟩ := (reads_inside _ _ hrun).1 [some ESCAPE, some START_BYTE]
  have hrun' := hrun.snoc hread'
  exact ⟨xbee', hrun', (reads_inside _ _ hrun').2.1⟩

end IoTRepublic.XBeeLine
