import IoTRepublic.Manager

/-!
Frames on a serial link. A device sends a start code, its bytes and an end code;
the broker collects what each poll gives until the end code appears and copies
out what stands between the two codes. However the frame is cut into polls, the
first end code ends it.
-/
namespace IoTRepublic.SerialFrame

open CheckedArray Package PackageReader Manager

abbrev MAXRECVBUFFER : ℕ := 1000

def startCode : Byte := 2

def endCode : Byte := 3

/-- The index of the first end code among the `n` bytes from `i` on, or 0. -/
def scanEnd (tempBuf : List Byte) : ℕ → ℤ → Exec ℤ
  | 0, _ => .ok 0
  | n + 1, i => do
    let c ← readAt tempBuf i
    if c = endCode then .ok i else scanEnd tempBuf n (i + 1)

structure Received where
  result : RecvResult
  buf : List Byte
  len : ℤ
  deriving DecidableEq

/-- `polls` are the bytes of the polls until the time is out. -/
def recvLoop (buf : List Byte) (len : ℤ) :
    List (List Byte) → List Byte → ℤ → Bool → Exec Received
  | [], _, _, _ => .ok ⟨.timeout, buf, len⟩
  | recvBuf :: polls, tempBuf, offset, startRecv =>
    if recvBuf = [] then recvLoop buf len polls tempBuf offset startRecv
    else do
      let tempBuf ← charcat tempBuf recvBuf offset recvBuf.length
      let first ← readAt tempBuf 0
      let startRecv := startRecv || first == startCode
      let endRecv ← if startRecv then scanEnd tempBuf recvBuf.length offset else .ok 0
      if endRecv > 0 then do
        let buf ← copyLoop tempBuf (endRecv - 1).toNat 1 0 buf
        .ok ⟨.completed, buf, endRecv - 1⟩
      else recvLoop buf len polls tempBuf (offset + recvBuf.length) startRecv

def recvCommand (polls : List (List Byte)) (buf : List Byte) (len : ℤ) : Exec Received :=
  recvLoop buf len polls (List.replicate MAXRECVBUFFER 0) 0 false

def recvCommandFromBleDevice (polls : List (List Byte)) (buf : List Byte) (len : ℤ) :
    Exec Received :=
  recvCommand polls buf len

def recvCommandFromEndDevice (polls : List (List Byte)) (buf : List Byte) (len : ℤ) :
    Exec Received :=
  recvCommand polls buf len

theorem scanEnd_none (front text behind : List Byte) (h : endCode ∉ text) :
    scanEnd (front ++ (text ++ behind)) text.length front.length = .ok 0 := by
  induction text generalizing front with
  | nil => rfl
  | cons c text ih =>
    simp only [List.mem_cons, not_or] at h
    have hread : readAt (front ++ (c :: text ++ behind)) (front.length : ℤ) = .ok c :=
      readAt_natCast _ _ _ (by simp)
    have hstep := ih (front ++ [c]) h.2
    rw [List.length_append, List.append_assoc] at hstep
    rw [List.length_cons, scanEnd, hread, ok_bind, if_neg (Ne.symm h.1)]
    exact hstep

theorem scanEnd_first (front before behind : List Byte) (n : ℕ) (h : endCode ∉ before)
    (hn : before.length < n) :
    scanEnd (front ++ (before ++ endCode :: behind)) n front.length =
      .ok (front.length + before.length) := by
  induction before generalizing front n with
  | nil =>
    obtain ⟨n, rfl⟩ := Nat.exists_eq_succ_of_ne_zero hn.ne'
    have hread : readAt (front ++ ([] ++ endCode :: behind)) (front.length : ℤ) = .ok endCode :=
      readAt_natCast _ _ _ (by simp)
    rw [scanEnd, hread, ok_bind, if_pos rfl]
    simp
  | cons c before ih =>
    simp only [List.mem_cons, not_or, List.length_cons] at h hn
    obtain ⟨n, rfl⟩ := Nat.exists_eq_succ_of_ne_zero (by omega : n ≠ 0)
    have hread : readAt (front ++ (c :: before ++ endCode :: behind)) (front.length : ℤ) = .ok c :=
      readAt_natCast _ _ _ (by simp)
    have hstep := ih (front ++ [c]) n h.2 (by omega)
    rw [List.length_append, List.append_assoc] at hstep
    rw [scanEnd, hread, ok_bind, if_neg (Ne.symm h.1)]
    refine Eq.trans hstep ?_
    rw [List.length_singleton, List.length_cons]
    push_cast
    exact congrArg Except.ok (by omega)

section

variable {buf body rest : List Byte} {len : ℤ}

/-- What a frame with this body leaves behind when the end code has been found. -/
theorem copyBody_eq_ok {tempBuf : List Byte} {r : Received} (behind : List Byte)
    (hfront : tempBuf = startCode :: (body ++ behind)) :
    (do let buf ← copyLoop tempBuf ((body.length : ℤ) + 1 - 1).toNat 1 0 buf
        .ok (⟨.completed, buf, (body.length : ℤ) + 1 - 1⟩ : Received)) = .ok r ↔
      body.length ≤ buf.length ∧
        r = ⟨.completed, body ++ buf.drop body.length, body.length⟩ := by
  have hlen : (body.length : ℤ) + 1 - 1 = body.length := by omega
  have hblock : (tempBuf.drop 1).take body.length = body := by
    rw [hfront, List.drop_one, List.tail_cons, List.take_left]
  have hcopy : body.length ≤ buf.length →
      copyLoop tempBuf body.length 1 0 buf = .ok (body ++ buf.drop body.length) := by
    intro hroom
    have h := copyLoop_eq tempBuf body.length 1 0 buf (by
      rw [hfront]
      simp only [List.length_cons, List.length_append]
      omega) (by omega)
    rw [hblock, splice_zero] at h
    exact h
  rw [hlen, Int.toNat_natCast]
  constructor
  · intro h
    rcases bind_eq_ok.mp h with ⟨copied, hcopied, h⟩
    have hroom : body.length ≤ buf.length := by
      rcases Nat.eq_zero_or_pos body.length with hzero | hpos
      · omega
      · have hbounds := copyLoop_bounds tempBuf body.length 1 0 buf copied hcopied hpos
        omega
    rw [hcopy hroom] at hcopied
    obtain rfl := Except.ok.inj hcopied
    exact ⟨hroom, (Except.ok.inj h).symm⟩
  · rintro ⟨hroom, rfl⟩
    rw [hcopy hroom, ok_bind]

/-- Received bytes are stored behind those collected so far. -/
private theorem charcat_collected (collected recvBuf : List Byte)
    (hroom : (collected ++ recvBuf).length ≤ MAXRECVBUFFER) :
    charcat (splice (List.replicate MAXRECVBUFFER 0) 0 collected) recvBuf collected.length
        recvBuf.length =
      .ok (splice (List.replicate MAXRECVBUFFER 0) 0 (collected ++ recvBuf)) := by
  have hblank : (List.replicate MAXRECVBUFFER (0 : Byte)).length = MAXRECVBUFFER :=
    List.length_replicate
  rw [List.length_append] at hroom
  have hcopy := copyLoop_eq recvBuf recvBuf.length 0 collected.length
    (splice (List.replicate MAXRECVBUFFER 0) 0 collected) (by omega) (by
      rw [splice_length _ _ _ (by omega)]
      omega)
  have hadj := splice_splice (List.replicate MAXRECVBUFFER (0 : Byte)) 0 collected recvBuf
    (by omega)
  rw [Nat.zero_add] at hadj
  rw [List.drop_zero, List.take_length, hadj] at hcopy
  exact hcopy

private theorem charcat_room (collected recvBuf stored : List Byte) (hne : recvBuf ≠ [])
    (hstored : charcat (splice (List.replicate MAXRECVBUFFER 0) 0 collected) recvBuf
      collected.length recvBuf.length = .ok stored) :
    collected.length + recvBuf.length ≤ MAXRECVBUFFER := by
  have hpos : 0 < recvBuf.length := List.length_pos_iff.mpr hne
  rw [charcat, Int.toNat_natCast, splice_zero] at hstored
  have hbounds := (copyLoop_bounds recvBuf _ 0 collected.length _ stored hstored hpos).2
  rw [List.length_append, List.length_drop, List.length_replicate] at hbounds
  omega

/-- The bytes of a poll behind those collected before it. -/
private theorem splice_collected (collected recvBuf : List Byte) :
    splice (List.replicate MAXRECVBUFFER 0) 0 (collected ++ recvBuf) =
      collected ++ (recvBuf ++
        (List.replicate MAXRECVBUFFER 0).drop (collected ++ recvBuf).length) := by
  rw [splice_zero, List.append_assoc]

private theorem scanEnd_unfinished (collected recvBuf : List Byte)
    (hbegins : collected ++ recvBuf <+: startCode :: body) (hno : endCode ∉ startCode :: body) :
    scanEnd (splice (List.replicate MAXRECVBUFFER 0) 0 (collected ++ recvBuf)) recvBuf.length
      collected.length = .ok 0 := by
  have hnone : endCode ∉ recvBuf := by
    intro hmem
    exact hno (hbegins.subset (List.mem_append_right _ hmem))
  rw [splice_collected]
  exact scanEnd_none collected recvBuf _ hnone

private theorem scanEnd_finished (collected recvBuf more : List Byte)
    (hframe : collected ++ recvBuf = startCode :: body ++ endCode :: more)
    (hno : endCode ∉ startCode :: body) (hopen : collected.length ≤ body.length + 1) :
    scanEnd (splice (List.replicate MAXRECVBUFFER 0) 0 (collected ++ recvBuf)) recvBuf.length
      collected.length = .ok ((body.length : ℤ) + 1) := by
  obtain ⟨pre, hpre⟩ : collected <+: startCode :: body :=
    List.prefix_of_prefix_length_le (hframe ▸ List.prefix_append ..) (List.prefix_append ..) hopen
  have hrecv : recvBuf = pre ++ endCode :: more := by
    rw [← hpre, List.append_assoc] at hframe
    exact List.append_cancel_left hframe
  have hnotpre : endCode ∉ pre := fun hmem => hno (hpre ▸ List.mem_append_right _ hmem)
  have hcount := congrArg List.length hpre
  rw [List.length_append, List.length_cons] at hcount
  have hscan := scanEnd_first collected pre
    (more ++ (List.replicate MAXRECVBUFFER 0).drop (collected ++ recvBuf).length) recvBuf.length
    hnotpre (by rw [hrecv]; simp)
  have hindex : (collected.length : ℤ) + pre.length = body.length + 1 := by omega
  rw [hindex, ← List.cons_append, ← List.append_assoc pre, ← hrecv] at hscan
  rw [splice_collected]
  exact hscan

/-- What has come so far begins with the start code. -/
private theorem exists_startCode {received : List Byte} (hne : received ≠ [])
    (hstream : received <+: startCode :: body ++ endCode :: rest) :
    ∃ tail, received = startCode :: tail := by
  cases received with
  | nil => exact absurd rfl hne
  | cons c tail =>
    obtain ⟨behind, hbehind⟩ := hstream
    exact ⟨tail, by rw [(List.cons.inj hbehind).1]⟩

/-- The loop with a part of the frame collected and no end code in it yet. -/
private theorem recvLoop_eq_ok {r : Received} (polls : List (List Byte)) (collected : List Byte)
    (hstream : collected ++ polls.flatten = startCode :: body ++ endCode :: rest)
    (hno : endCode ∉ startCode :: body) (hopen : collected.length ≤ body.length + 1)
    (hfits : (collected ++ polls.flatten).length ≤ MAXRECVBUFFER ∨ buf.length < body.length) :
    recvLoop buf len polls (splice (List.replicate MAXRECVBUFFER 0) 0 collected)
        collected.length (decide (collected ≠ [])) = .ok r ↔
      body.length ≤ buf.length ∧
        r = ⟨.completed, body ++ buf.drop body.length, body.length⟩ := by
  induction polls generalizing collected with
  | nil =>
    have hlen := congrArg List.length hstream
    simp only [List.flatten_nil, List.append_nil, List.length_append, List.length_cons] at hlen
    omega
  | cons recvBuf polls ih =>
    rw [List.flatten_cons, ← List.append_assoc] at hstream hfits
    by_cases hempty : recvBuf = []
    · rw [recvLoop, if_pos hempty]
      rw [hempty, List.append_nil] at hstream hfits
      exact ih collected hstream hopen hfits
    have hlen : (collected ++ recvBuf).length = collected.length + recvBuf.length :=
      List.length_append
    by_cases hroom : (collected ++ recvBuf).length ≤ MAXRECVBUFFER
    swap
    · -- the poll runs over the array, and a body this long is not copied out
      rw [List.length_append] at hfits
      refine iff_of_false ?_ (fun h => by omega)
      intro h
      rw [recvLoop, if_neg hempty] at h
      obtain ⟨stored, hstored, -⟩ := bind_eq_ok.mp h
      have hstays := charcat_room collected recvBuf stored hempty hstored
      omega
    have hnonempty : collected ++ recvBuf ≠ [] := List.append_ne_nil_of_right_ne_nil _ hempty
    obtain ⟨tail, hhead⟩ := exists_startCode hnonempty ⟨polls.flatten, hstream⟩
    have hfirst : readAt (splice (List.replicate MAXRECVBUFFER 0) 0 (collected ++ recvBuf)) 0 =
        .ok startCode := by
      rw [splice_zero, hhead]
      rfl
    rw [recvLoop, if_neg hempty, charcat_collected collected recvBuf hroom, ok_bind, hfirst,
      ok_bind]
    simp only [beq_self_eq_true, Bool.or_true, ↓reduceIte]
    by_cases hwithin : (collected ++ recvBuf).length ≤ body.length + 1
    · have hbegins : collected ++ recvBuf <+: startCode :: body :=
        List.prefix_of_prefix_length_le (hstream ▸ List.prefix_append ..)
          (List.prefix_append ..) hwithin
      have hnext := ih (collected ++ recvBuf) hstream hwithin hfits
      rw [decide_eq_true hnonempty, hlen] at hnext
      push_cast at hnext
      rw [scanEnd_unfinished collected recvBuf hbegins hno, ok_bind, if_neg (by omega)]
      exact hnext
    · obtain ⟨more, hmore⟩ : startCode :: body ++ [endCode] <+: collected ++ recvBuf :=
        List.prefix_of_prefix_length_le (⟨rest, by
          rw [hstream]
          simp⟩) (List.prefix_append _ polls.flatten) (by simp; omega)
      have hframe : collected ++ recvBuf = startCode :: body ++ endCode :: more := by
        rw [← hmore, List.append_assoc]
        rfl
      rw [scanEnd_finished collected recvBuf more hframe hno hopen, ok_bind, if_pos (by omega)]
      apply copyBody_eq_ok (endCode :: (more ++ _))
      rw [splice_zero, hframe]
      simp only [List.cons_append, List.append_assoc]
      rfl

/-- However a frame is cut into polls, the first end code in it ends it, and what stood
between the codes is copied if the caller's array has room for it. A frame longer than the
receive buffer is no different when the caller's array is too small for it. -/
theorem recvCommand_eq_ok {polls : List (List Byte)} {r : Received}
    (hframe : polls.flatten = startCode :: body ++ endCode :: rest) (hno : endCode ∉ body)
    (hfits : polls.flatten.length ≤ MAXRECVBUFFER ∨ buf.length < body.length) :
    recvCommand polls buf len = .ok r ↔
      body.length ≤ buf.length ∧
        r = ⟨.completed, body ++ buf.drop body.length, body.length⟩ := by
  have hne : endCode ∉ startCode :: body := by
    rw [List.mem_cons, not_or]
    exact ⟨by decide, hno⟩
  have hloop : recvLoop buf len polls (splice (List.replicate MAXRECVBUFFER 0) 0 []) 0 false =
      .ok r ↔ _ := recvLoop_eq_ok polls [] hframe hne (by simp) hfits
  rw [splice_nil] at hloop
  exact hloop

/-- The loop while no end code has come: nothing has been copied out when the time is up. -/
private theorem recvLoop_silent (polls : List (List Byte)) (collected : List Byte)
    (startRecv : Bool) (hno : endCode ∉ polls.flatten)
    (hfits : (collected ++ polls.flatten).length ≤ MAXRECVBUFFER) :
    recvLoop buf len polls (splice (List.replicate MAXRECVBUFFER 0) 0 collected) collected.length
      startRecv = .ok ⟨.timeout, buf, len⟩ := by
  induction polls generalizing collected startRecv with
  | nil => rfl
  | cons recvBuf polls ih =>
    rw [List.flatten_cons, List.mem_append, not_or] at hno
    rw [List.flatten_cons, ← List.append_assoc] at hfits
    by_cases hempty : recvBuf = []
    · rw [hempty, List.append_nil] at hfits
      rw [recvLoop, if_pos hempty]
      exact ih collected startRecv hno.2 hfits
    · have hroom : (collected ++ recvBuf).length ≤ MAXRECVBUFFER := by
        rw [List.length_append] at hfits
        omega
      obtain ⟨c, tail, hcons⟩ := List.exists_cons_of_ne_nil
        (List.append_ne_nil_of_right_ne_nil collected hempty)
      have hfirst : readAt (splice (List.replicate MAXRECVBUFFER 0) 0 (collected ++ recvBuf)) 0 =
          .ok c := by
        rw [splice_zero, hcons]
        rfl
      have hscan : scanEnd (splice (List.replicate MAXRECVBUFFER 0) 0 (collected ++ recvBuf))
          recvBuf.length collected.length = .ok 0 := by
        rw [splice_collected]
        exact scanEnd_none collected recvBuf _ hno.1
      have hnext := ih (collected ++ recvBuf) (startRecv || c == startCode) hno.2 hfits
      rw [List.length_append] at hnext
      push_cast at hnext
      rw [recvLoop, if_neg hempty, charcat_collected collected recvBuf hroom, ok_bind, hfirst,
        ok_bind]
      simp only [hscan, ok_bind, gt_iff_lt, lt_self_iff_false, ↓reduceIte, ite_self]
      exact hnext

/-- Without an end code the caller's array and length stay as they were. -/
theorem recvCommand_silent {polls : List (List Byte)} (hno : endCode ∉ polls.flatten)
    (hfits : polls.flatten.length ≤ MAXRECVBUFFER) :
    recvCommand polls buf len = .ok ⟨.timeout, buf, len⟩ := by
  have hloop : recvLoop buf len polls (splice (List.replicate MAXRECVBUFFER 0) 0 []) 0 false = _ :=
    recvLoop_silent polls [] false hno hfits
  rw [splice_nil] at hloop
  exact hloop

end

end IoTRepublic.SerialFrame
