import HomeKeeper.Frame.Fifo
import Mathlib.Data.List.Perm.Subperm

/-!
# What the master takes for a message

The two sides agree on where a message starts only by both counting 10240 bytes, and neither `write`
nor `read` promises to move that many at once. A read that returns less leaves the rest of the
buffer in the FIFO, and the next read takes it for a message of its own
(`split_read_dispatches_twice`); two `tools` whose pieces interleave do the same to each other.

`dispatched_is_merge`: as long as no piece of another writer comes between the pieces of a buffer
and every read returns a whole buffer (`Framed`), the messages dispatched are those sent, each
once. The invariant is that the FIFO and what the unfinished writer still holds are together a
number of whole buffers (`Aligned`).
-/

namespace HomeKeeper.Frame.Fifo

open CData StepSystem

/-- Nothing is dispatched that was not sent, no message twice, and none is missing once the FIFO
and all writers are empty. -/
def Merge (s : State) : Prop :=
  s.dispatched.Subperm s.sent ∧
    (s.pipe = [] → (∀ w ∈ s.writers, w = []) → s.dispatched.Perm s.sent)

/-- A piece goes into the FIFO only while every other writer has written all or nothing, and a read
returns a whole buffer. -/
def Framed (s : State) : Event → Prop
  | .send _ _ => True
  | .put i _ => ∀ w ∈ s.writers.eraseIdx i, w = [] ∨ w.length = bufSize
  | .read n => n = bufSize

/-! ## The invariant -/

/-- The writers that have not started. -/
def waiting (ws : List Bytes) : List Bytes := ws.filter fun w => w.length = bufSize

/-- What the others still have to write. -/
def unfinished (ws : List Bytes) : Bytes := (ws.filter fun w => w.length ≠ bufSize).flatten

/-- `queue` are the buffers that are at least partly in the FIFO. -/
structure Aligned (s : State) (queue : List Bytes) : Prop where
  whole : ∀ b ∈ queue, b.length = bufSize
  bytes : s.pipe ++ unfinished s.writers = queue.flatten
  bounded : ∀ w ∈ s.writers, w.length ≤ bufSize
  merge : (s.dispatched ++ (queue ++ waiting s.writers).map decode).Perm s.sent

theorem waiting_append (xs ys : List Bytes) : waiting (xs ++ ys) = waiting xs ++ waiting ys :=
  List.filter_append ..

theorem unfinished_append (xs ys : List Bytes) :
    unfinished (xs ++ ys) = unfinished xs ++ unfinished ys := by
  simp [unfinished]

theorem waiting_cons (w : Bytes) (ws : List Bytes) :
    waiting (w :: ws) = waiting [w] ++ waiting ws := waiting_append [w] ws

theorem unfinished_cons (w : Bytes) (ws : List Bytes) :
    unfinished (w :: ws) = unfinished [w] ++ unfinished ws :=
  unfinished_append [w] ws

theorem waiting_one {w : Bytes} (h : w.length = bufSize) : waiting [w] = [w] := by
  simp [waiting, h]

theorem waiting_one_of_ne {w : Bytes} (h : w.length ≠ bufSize) : waiting [w] = [] := by
  simp [waiting, h]

theorem unfinished_one {w : Bytes} (h : w.length = bufSize) : unfinished [w] = [] := by
  simp [unfinished, h]

theorem unfinished_one_of_ne {w : Bytes} (h : w.length ≠ bufSize) : unfinished [w] = w := by
  simp [unfinished, h]

theorem unfinished_eq_nil {ws : List Bytes} (h : ∀ w ∈ ws, w = [] ∨ w.length = bufSize) :
    unfinished ws = [] := by
  apply List.flatten_eq_nil_iff.mpr
  intro w hw
  obtain ⟨hmem, hne⟩ := List.mem_filter.mp hw
  exact (h w hmem).resolve_right (by simpa using hne)

/-! ## One step -/

theorem aligned_send {s : State} {queue : List Bytes} (hs : Aligned s queue) (a : Args)
    (junk : Nat → UInt8) :
    Aligned { s with writers := s.writers ++ [a.encode junk], sent := s.sent ++ [a.command] }
      queue where
  whole := hs.whole
  bytes := by
    show s.pipe ++ unfinished (s.writers ++ [a.encode junk]) = queue.flatten
    rw [unfinished_append, unfinished_one (length_encode a junk), List.append_nil, hs.bytes]
  bounded := by
    intro w hw
    rcases List.mem_append.mp hw with hw | hw
    · exact hs.bounded w hw
    · rw [List.mem_singleton.mp hw, length_encode]
  merge := by
    show (s.dispatched ++ (queue ++ waiting (s.writers ++ [a.encode junk])).map decode).Perm
      (s.sent ++ [a.command])
    rw [waiting_append, waiting_one (length_encode a junk), ← List.append_assoc, List.map_append,
      ← List.append_assoc]
    show List.Perm (_ ++ [decode (a.encode junk)]) _
    rw [decode_encode]
    exact hs.merge.append_right _

/-- Which writer a piece comes from, and what is left of it. -/
theorem step_put {s s' : State} {i n : Nat} (h : step s (.put i n) = some s') :
    ∃ pre w post, s.writers = pre ++ w :: post ∧ pre.length = i ∧ 0 < n ∧ n ≤ w.length ∧
      s' = { s with writers := pre ++ w.drop n :: post, pipe := s.pipe ++ w.take n } := by
  simp only [step] at h
  split at h
  · cases h
  · next w hw =>
    split at h
    · next hguard =>
      obtain ⟨hi, hget⟩ := List.getElem?_eq_some_iff.mp hw
      have hlen : (s.writers.take i).length = i := List.length_take_of_le (Nat.le_of_lt hi)
      have hsplit : s.writers = s.writers.take i ++ w :: s.writers.drop (i + 1) := by
        rw [← hget, ← List.drop_eq_getElem_cons hi, List.take_append_drop]
      refine ⟨_, w, _, hsplit, hlen, hguard.1, hguard.2.1, ?_⟩
      rw [← Option.some.inj h, List.set_eq_take_append_cons_drop, if_pos hi]
    · cases h

/-- A piece of the writer `w` between writers that have written all or nothing. -/
theorem aligned_put {s : State} {queue pre post : List Bytes} {w : Bytes} {n : Nat}
    (hs : Aligned s queue) (hw : s.writers = pre ++ w :: post) (hn : 0 < n) (hle : n ≤ w.length)
    (hpre : unfinished pre = []) (hpost : unfinished post = []) :
    ∃ queue', Aligned
      { s with writers := pre ++ w.drop n :: post, pipe := s.pipe ++ w.take n } queue' := by
  have hbound : w.length ≤ bufSize := hs.bounded w (by simp [hw])
  have hdrop : (w.drop n).length ≠ bufSize := by
    rw [List.length_drop]
    omega
  -- what is left of `w` is all that is unfinished, and with the piece it is what was left before
  have hrest : unfinished (pre ++ w.drop n :: post) = w.drop n := by
    rw [unfinished_append, unfinished_cons, hpre, hpost, unfinished_one_of_ne hdrop,
      List.nil_append, List.append_nil]
  have hwait : waiting (pre ++ w.drop n :: post) = waiting pre ++ waiting post := by
    rw [waiting_append, waiting_cons, waiting_one_of_ne hdrop, List.nil_append]
  have hpipe : s.pipe ++ w.take n ++ unfinished (pre ++ w.drop n :: post) = s.pipe ++ w := by
    rw [hrest, List.append_assoc, List.take_append_drop]
  have hbounded : ∀ v ∈ pre ++ w.drop n :: post, v.length ≤ bufSize := by
    intro v hv
    rcases List.mem_append.mp hv with hv | hv
    · exact hs.bounded v (by simp [hw, hv])
    · rcases List.mem_cons.mp hv with rfl | hv
      · rw [List.length_drop]
        omega
      · exact hs.bounded v (by simp [hw, hv])
  have hbytes := hs.bytes
  rw [hw, unfinished_append, unfinished_cons, hpre, hpost, List.nil_append,
    List.append_nil] at hbytes
  have hmerge := hs.merge
  rw [hw, waiting_append, waiting_cons] at hmerge
  by_cases hfull : w.length = bufSize
  · -- the first piece: the buffer of `w` joins the queue
    rw [unfinished_one hfull, List.append_nil] at hbytes
    rw [waiting_one hfull] at hmerge
    refine ⟨queue ++ [w], ?_, ?_, hbounded, ?_⟩
    · intro b hb
      rcases List.mem_append.mp hb with hb | hb
      · exact hs.whole b hb
      · rw [List.mem_singleton.mp hb, hfull]
    · rw [List.flatten_append, List.flatten_singleton, ← hbytes]
      exact hpipe
    · show (s.dispatched ++ (queue ++ [w] ++ waiting (pre ++ w.drop n :: post)).map decode).Perm
        s.sent
      rw [hwait]
      refine List.Perm.trans ?_ hmerge
      apply List.Perm.append_left
      apply List.Perm.map
      rw [List.append_assoc]
      apply List.Perm.append_left
      rw [← List.append_assoc, ← List.append_assoc]
      exact List.perm_append_comm.append_right _
  · -- a later piece: its buffer is in the queue already
    rw [unfinished_one_of_ne hfull] at hbytes
    rw [waiting_one_of_ne hfull, List.nil_append, ← hwait] at hmerge
    exact ⟨queue, hs.whole, hpipe.trans hbytes, hbounded, hmerge⟩

/-- A whole buffer is read: it is the first of the queue. -/
theorem aligned_read {s : State} {queue : List Bytes} (hs : Aligned s queue)
    (hle : bufSize ≤ s.pipe.length) (button : Bool) :
    ∃ queue', Aligned
      { s with
        pipe := s.pipe.drop bufSize
        dispatched := s.dispatched ++ [decode (recvBuf (s.pipe.take bufSize))]
        button := button } queue' := by
  have hpos : 0 < bufSize := by decide
  cases queue with
  | nil =>
    have hempty : s.pipe = [] := (List.append_eq_nil_iff.mp hs.bytes).1
    rw [hempty, List.length_nil] at hle
    omega
  | cons b queue =>
    have hb : b.length = bufSize := hs.whole b List.mem_cons_self
    have hbytes : s.pipe.take bufSize ++ (s.pipe.drop bufSize ++ unfinished s.writers)
        = b ++ queue.flatten := by
      rw [← List.append_assoc, List.take_append_drop, hs.bytes, List.flatten_cons]
    have hlen : (s.pipe.take bufSize).length = b.length := by
      rw [List.length_take, hb]
      omega
    obtain ⟨htake, hdrop⟩ := List.append_inj hbytes hlen
    refine ⟨queue, fun x hx => hs.whole x (List.mem_cons_of_mem b hx), hdrop, hs.bounded, ?_⟩
    show (s.dispatched ++ [decode (recvBuf (s.pipe.take bufSize))]
      ++ (queue ++ waiting s.writers).map decode).Perm s.sent
    rw [htake, recvBuf_whole hb, List.append_assoc]
    exact hs.merge

theorem aligned_step {s s' : State} {e : Event} (hs : ∃ queue, Aligned s queue) (he : Framed s e)
    (h : step s e = some s') : ∃ queue, Aligned s' queue := by
  obtain ⟨queue, hs⟩ := hs
  cases e with
  | send a junk =>
    rw [step, Option.some.injEq] at h
    exact ⟨queue, h ▸ aligned_send hs a junk⟩
  | put i n =>
    obtain ⟨pre, w, post, hw, rfl, hn, hle, rfl⟩ := step_put h
    have hothers : s.writers.eraseIdx pre.length = pre ++ post := by
      rw [hw, List.eraseIdx_append_of_length_le (Nat.le_refl _), Nat.sub_self]
      rfl
    have hquiet : ∀ w ∈ pre ++ post, w = [] ∨ w.length = bufSize := hothers ▸ he
    have hpre := unfinished_eq_nil fun w hw => hquiet w (List.mem_append_left post hw)
    have hpost := unfinished_eq_nil fun w hw => hquiet w (List.mem_append_right pre hw)
    exact aligned_put hs hw hn hle hpre hpost
  | read n =>
    have hn : n = bufSize := he
    subst hn
    simp only [step] at h
    split at h
    · next hguard =>
      rw [Option.some.injEq] at h
      rw [← h]
      exact aligned_read hs hguard.2.2.2 _
    · cases h

/-! ## Whole runs -/

theorem merge_of_aligned {s : State} {queue : List Bytes} (hs : Aligned s queue) : Merge s := by
  constructor
  · exact (List.sublist_append_left s.dispatched _).subperm.trans hs.merge.subperm
  · intro hpipe hwriters
    have hunfinished : unfinished s.writers = [] :=
      unfinished_eq_nil fun w hw => .inl (hwriters w hw)
    have hwaiting : waiting s.writers = [] := by
      apply List.filter_eq_nil_iff.mpr
      intro w hw
      rw [hwriters w hw]
      decide
    have hflat : queue.flatten = [] := by rw [← hs.bytes, hpipe, hunfinished, List.append_nil]
    have hqueue : queue = [] := by
      apply List.eq_nil_iff_forall_not_mem.mpr
      intro b hb
      have hlen := hs.whole b hb
      rw [List.flatten_eq_nil_iff.mp hflat b hb] at hlen
      cases hlen
    have hmerge := hs.merge
    rw [hqueue, hwaiting] at hmerge
    simpa using hmerge

/-- **The messages dispatched are the messages sent**, each once, in every run in which buffers
enter the FIFO one after the other and every read returns a whole one. -/
theorem dispatched_is_merge (es : List Event) (s : State) (hrun : run step .start es = some s)
    (hes : Meets step Framed .start es) : Merge s := by
  have hstart : ∃ queue, Aligned .start queue :=
    ⟨[], by simp, rfl, by simp [State.start], .refl _⟩
  obtain ⟨queue, hq⟩ :=
    run_invariant_of_meets (fun _ _ _ hs he h => aligned_step hs he h) hstart hes hrun
  exact merge_of_aligned hq

/-- The next buffer goes into the empty FIFO as a whole. -/
theorem step_put_whole {s : State} {i : Nat} {b : Bytes} (hw : s.writers[i]? = some b)
    (hpipe : s.pipe = []) (hb : b.length = bufSize) :
    step s (.put i bufSize) = some { s with writers := s.writers.set i [], pipe := b } := by
  have hbuf : 0 < bufSize ∧ bufSize ≤ b.length ∧ (bufSize ≤ pipeBuf → bufSize = b.length) :=
    ⟨by decide, Nat.le_of_eq hb.symm, fun _ => hb.symm⟩
  simp only [step, hw]
  rw [if_pos hbuf, hpipe, List.take_of_length_le (Nat.le_of_eq hb),
    List.drop_of_length_le (Nat.le_of_eq hb), List.nil_append]

theorem step_read {s : State} {n : Nat} (hbutton : s.button = false) (hn : 0 < n)
    (hbuf : n ≤ bufSize) (hle : n ≤ s.pipe.length) :
    step s (.read n) = some { s with
      pipe := s.pipe.drop n
      dispatched := s.dispatched ++ [decode (recvBuf (s.pipe.take n))]
      button := decide ((decode (recvBuf (s.pipe.take n))).type = ulEnd) } := by
  simp only [step]
  rw [if_pos ⟨hbutton, hn, hbuf, hle⟩]

/-- `tools 4 x email`. -/
def endOneArgs : Args := ⟨ascii "4", ascii "x", some (ascii "email")⟩

/-- The buffer of `tools 4 x email`, as far as the runs below depend on it. -/
theorem exists_endOneBuf : ∃ b : Bytes, b.length = bufSize ∧ decode b = endOneArgs.command ∧
    ∀ s, step s (.send endOneArgs fun _ => 7)
      = some { s with writers := s.writers ++ [b], sent := s.sent ++ [endOneArgs.command] } :=
  ⟨endOneArgs.encode fun _ => 7, length_encode .., decode_encode .., fun _ => rfl⟩

/-- Two calls of `tools`; the buffer of the second goes first and is read. -/
def framedSchedule : List Event :=
  [.send endOneArgs (fun _ => 7), .send endOneArgs (fun _ => 7), .put 1 bufSize, .read bufSize]

theorem dispatched_is_merge_two_calls :
    ∃ s, run step .start framedSchedule = some s ∧ s.dispatched = [endOneArgs.command]
      ∧ s.sent = [endOneArgs.command, endOneArgs.command] ∧ Merge s := by
  obtain ⟨b, hb, hdec, hsend⟩ := exists_endOneBuf
  have hput : step ⟨[b, b], [], [endOneArgs.command, endOneArgs.command], [], false⟩
      (.put 1 bufSize)
      = some ⟨[b, []], b, [endOneArgs.command, endOneArgs.command], [], false⟩ :=
    step_put_whole rfl rfl hb
  have hread : step ⟨[b, []], b, [endOneArgs.command, endOneArgs.command], [], false⟩
      (.read bufSize) = some ⟨[b, []], [], [endOneArgs.command, endOneArgs.command],
        [endOneArgs.command], false⟩ := by
    rw [step_read rfl (by decide) (Nat.le_refl _) (Nat.le_of_eq hb.symm),
      List.take_of_length_le (Nat.le_of_eq hb), List.drop_of_length_le (Nat.le_of_eq hb),
      recvBuf_whole hb, hdec, show decide (endOneArgs.command.type = ulEnd) = false by decide]
    rfl
  have hrun : run step .start framedSchedule = some ⟨[b, []], [],
      [endOneArgs.command, endOneArgs.command], [endOneArgs.command], false⟩ :=
    run_cons.mpr ⟨_, hsend _, run_cons.mpr ⟨_, hsend _, run_cons.mpr ⟨_, hput,
      run_cons.mpr ⟨_, hread, run_nil _⟩⟩⟩⟩
  have hmeets : Meets step Framed .start framedSchedule := by
    refine (meets_cons (hsend _)).mpr ⟨trivial, (meets_cons (hsend _)).mpr ⟨trivial, ?_⟩⟩
    refine (meets_cons hput).mpr ⟨?_, (meets_cons hread).mpr ⟨rfl, trivial⟩⟩
    intro w hw
    rw [List.mem_singleton.mp (show w ∈ [b] from hw)]
    exact .inr hb
  exact ⟨_, hrun, rfl, rfl, dispatched_is_merge framedSchedule _ hrun hmeets⟩

/-- A short read is taken for `ul_log`, whatever was sent. -/
theorem decode_short {bytes : Bytes} (h : bytes.length ≤ 2560) :
    (decode (recvBuf bytes)).type = 0 := by
  simp only [decode, recvBuf, bufSize]
  rw [List.drop_append, List.drop_of_length_le h, List.nil_append, List.drop_replicate,
    show 10240 - bytes.length - (2560 - bytes.length) = 7676 + 4 by omega, Nat.add_comm,
    List.replicate_add]
  exact readLe32_le32_append 0 _

/-- One call of `tools`, read in two pieces. -/
def splitSchedule : List Event :=
  [.send endOneArgs (fun _ => 7), .put 0 bufSize, .read 1000, .read 9240]

/-- The rest of the buffer is dispatched as a second message. -/
theorem split_read_dispatches_twice :
    ¬ ∀ (es : List Event) (s : State), run step .start es = some s → Merge s := by
  intro h
  obtain ⟨b, hb, -, hsend⟩ := exists_endOneBuf
  have hshort : (b.take 1000).length ≤ 2560 := (List.length_take_le _ _).trans (by decide)
  have hrest : 9240 ≤ (b.drop 1000).length := by
    rw [List.length_drop, hb]
    decide
  have hput : step ⟨[b], [], [endOneArgs.command], [], false⟩ (.put 0 bufSize)
      = some ⟨[[]], b, [endOneArgs.command], [], false⟩ :=
    step_put_whole rfl rfl hb
  have hfirst : step ⟨[[]], b, [endOneArgs.command], [], false⟩ (.read 1000)
      = some ⟨[[]], b.drop 1000, [endOneArgs.command], [decode (recvBuf (b.take 1000))],
        false⟩ := by
    rw [step_read rfl (by decide) (by decide) (by rw [hb]; decide), decode_short hshort]
    rfl
  have hsecond := step_read
    (s := ⟨[[]], b.drop 1000, [endOneArgs.command], [decode (recvBuf (b.take 1000))], false⟩)
    rfl (show 0 < 9240 by decide) (by decide) hrest
  have hmerge := h splitSchedule _ (run_cons.mpr ⟨_, hsend _, run_cons.mpr ⟨_, hput,
    run_cons.mpr ⟨_, hfirst, run_cons.mpr ⟨_, hsecond, run_nil _⟩⟩⟩⟩)
  -- two messages dispatched, one sent
  have hlen : 2 ≤ 1 := hmerge.1.length_le
  omega

end HomeKeeper.Frame.Fifo
