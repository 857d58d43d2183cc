import Mathlib.Data.List.TakeWhile
import Mathlib.Order.MinMax

/-!
# Length-prefixed frames in a byte stream

A stream transport hands over bytes in arbitrary pieces. A length-prefixed
format cuts them back into frames: a header of fixed size announces how long the
whole frame is. `next` looks at the start of a buffer, `drain` takes out every
complete frame, and `loop` is the usual dispatch loop that treats one frame
after the other and may be left by the treatment of a frame.

The main fact is `drain_append`: draining after each piece and draining the
whole stream once give the same frames, however the stream was cut.
-/

namespace Framing

variable {α σ ε : Type}

/-- A frame format. The announced size may only depend on the header. -/
structure Format (α : Type) where
  header : Nat
  limit : Nat
  size : List α → Nat
  header_pos : 0 < header
  size_append : ∀ a b : List α, header ≤ a.length → size (a ++ b) = size a

/-- What the start of a buffer holds. -/
inductive Next (α : Type)
  | incomplete
  | invalid
  | frame (body rest : List α)

variable (f : Format α)

/-- Take one frame from the start of a buffer. -/
def next (buf : List α) : Next α :=
  if buf.length < f.header then .incomplete
  else if f.size buf < f.header ∨ f.limit < f.size buf then .invalid
  else if buf.length < f.size buf then .incomplete
  else .frame (buf.take (f.size buf)) (buf.drop (f.size buf))

variable {f}

theorem next_frame {buf body rest : List α} (h : next f buf = .frame body rest) :
    buf = body ++ rest ∧ body.length = f.size buf ∧ f.header ≤ f.size buf ∧
      f.size buf ≤ f.limit ∧ f.header ≤ buf.length := by
  unfold next at h
  split_ifs at h with hshort hbad hlong
  obtain ⟨rfl, rfl⟩ := Next.frame.inj h
  have hlen : f.size buf ≤ buf.length := not_lt.mp hlong
  refine ⟨(List.take_append_drop _ _).symm, ?_, by omega, by omega, by omega⟩
  rw [List.length_take, Nat.min_eq_left hlen]

theorem next_frame_rest_length {buf body rest : List α} (h : next f buf = .frame body rest) :
    rest.length < buf.length := by
  obtain ⟨hbuf, hbody, hsize, -, -⟩ := next_frame h
  have hlen := congrArg List.length hbuf
  rw [List.length_append] at hlen
  have := f.header_pos
  omega

/-- A frame at the start of a buffer does not depend on what follows it. -/
theorem next_append_frame {buf body rest : List α} (h : next f buf = .frame body rest)
    (more : List α) : next f (buf ++ more) = .frame body (rest ++ more) := by
  obtain ⟨hbuf, hbody, hsize, hlimit, hhead⟩ := next_frame h
  have happ : f.size (buf ++ more) = f.size buf := f.size_append _ _ hhead
  have hlen := congrArg List.length hbuf
  rw [List.length_append] at hlen
  rw [next, happ, if_neg (by rw [List.length_append]; omega), if_neg (by omega),
    if_neg (by rw [List.length_append]; omega)]
  have hall : buf ++ more = body ++ (rest ++ more) := by rw [hbuf, List.append_assoc]
  rw [← hbody, hall, List.take_left, List.drop_left]

theorem next_append_invalid {buf : List α} (h : next f buf = .invalid) (more : List α) :
    next f (buf ++ more) = .invalid := by
  unfold next at h
  split_ifs at h with hshort hbad
  have happ : f.size (buf ++ more) = f.size buf := f.size_append _ _ (not_lt.mp hshort)
  rw [next, happ, if_neg (by rw [List.length_append]; omega), if_pos hbad]

/-- What waits for its end is shorter than the longest frame. -/
theorem length_of_incomplete {buf : List α} (h : next f buf = .incomplete) :
    buf.length < max f.header f.limit := by
  unfold next at h
  split_ifs at h with hshort hbad hlong
  · exact lt_max_of_lt_left hshort
  · exact lt_max_of_lt_right (by omega)

variable (f)

/-- All complete frames of a buffer, and the bytes left over; nothing is left
over when an invalid header stops the cutting. -/
def drain (buf : List α) : List (List α) × Option (List α) :=
  match _h : next f buf with
  | .incomplete => ([], some buf)
  | .invalid => ([], none)
  | .frame body rest => (body :: (drain rest).1, (drain rest).2)
termination_by buf.length
decreasing_by all_goals exact next_frame_rest_length _h

/-- The dispatch loop of a reader: `act` treats each frame and may leave the
loop with an error. -/
def loop (act : σ → List α → Except ε σ) (buf : List α) (s : σ) :
    Except ε (σ × Option (List α)) :=
  match _h : next f buf with
  | .incomplete => .ok (s, some buf)
  | .invalid => .ok (s, none)
  | .frame body rest => do loop act rest (← act s body)
termination_by buf.length
decreasing_by exact next_frame_rest_length _h

variable {f}

theorem drain_of_incomplete {buf : List α} (h : next f buf = .incomplete) :
    drain f buf = ([], some buf) := by
  rw [drain]
  split <;> simp_all

theorem drain_of_invalid {buf : List α} (h : next f buf = .invalid) :
    drain f buf = ([], none) := by
  rw [drain]
  split <;> simp_all

theorem drain_of_frame {buf body rest : List α} (h : next f buf = .frame body rest) :
    drain f buf = (body :: (drain f rest).1, (drain f rest).2) := by
  rw [drain]
  split <;> simp_all

/-- Cutting a stream in two places: the frames of the first piece, then those of
what it left over together with the second piece. -/
theorem drain_append (a b : List α) :
    drain f (a ++ b) =
      match (drain f a).2 with
      | none => ((drain f a).1, none)
      | some rest => ((drain f a).1 ++ (drain f (rest ++ b)).1, (drain f (rest ++ b)).2) := by
  induction hn : a.length using Nat.strong_induction_on generalizing a with
  | _ n ih =>
    cases h : next f a with
    | incomplete => simp [drain_of_incomplete h]
    | invalid => rw [drain_of_invalid (next_append_invalid h b), drain_of_invalid h]
    | frame body rest =>
        have hlt : rest.length < n := hn ▸ next_frame_rest_length h
        rw [drain_of_frame (next_append_frame h b), drain_of_frame h, ih _ hlt rest rfl]
        cases (drain f rest).2 <;> rfl

/-- The bytes left over do not start with a complete frame. -/
theorem next_of_drain_rest {buf rest : List α} (h : (drain f buf).2 = some rest) :
    next f rest = .incomplete := by
  induction hn : buf.length using Nat.strong_induction_on generalizing buf with
  | _ n ih =>
    cases hnext : next f buf with
    | incomplete =>
        rw [drain_of_incomplete hnext] at h
        cases h
        exact hnext
    | invalid =>
        rw [drain_of_invalid hnext] at h
        cases h
    | frame body tail =>
        rw [drain_of_frame hnext] at h
        exact ih _ (hn ▸ next_frame_rest_length hnext) h rfl

theorem next_congr_of_frame {buf body rest : List α} (h : next f buf = .frame body rest) :
    next f body = .frame body [] := by
  obtain ⟨hbuf, hbody, hsize, hlimit, hhead⟩ := next_frame h
  have hsame : f.size body = f.size buf := by
    rw [hbuf]
    exact (f.size_append _ _ (by omega)).symm
  rw [next, hsame, if_neg (by omega), if_neg (by omega), if_neg (by omega), ← hbody,
    List.take_length, List.drop_length]

/-- The dispatch loop folds its action over the frames of the buffer. -/
theorem loop_eq_foldlM (act : σ → List α → Except ε σ) (buf : List α) (s : σ) :
    loop f act buf s =
      ((drain f buf).1.foldlM act s).map fun t => (t, (drain f buf).2) := by
  induction hn : buf.length using Nat.strong_induction_on generalizing buf s with
  | _ n ih =>
    rw [loop]
    split
    · rename_i h
      rw [drain_of_incomplete h]
      rfl
    · rename_i h
      rw [drain_of_invalid h]
      rfl
    · rename_i body rest h
      rw [drain_of_frame h, List.foldlM_cons]
      cases hact : act s body with
      | error e => rfl
      | ok t => exact ih _ (hn ▸ next_frame_rest_length h) rest t rfl

/-- What each turn keeps, the loop keeps. -/
theorem loop_invariant {P : σ → Prop} {act : σ → List α → Except ε σ}
    (hact : ∀ s body t, P s → act s body = .ok t → P t) {buf : List α} {s t : σ}
    {rest : Option (List α)} (hloop : loop f act buf s = .ok (t, rest)) (hs : P s) : P t := by
  induction hn : buf.length using Nat.strong_induction_on generalizing buf s with
  | _ n ih =>
    rw [loop] at hloop
    split at hloop
    · cases hloop
      exact hs
    · cases hloop
      exact hs
    · rename_i body rest' h
      cases hnext : act s body with
      | error e =>
          rw [hnext] at hloop
          cases hloop
      | ok s' =>
          rw [hnext] at hloop
          exact ih _ (hn ▸ next_frame_rest_length h) hloop (hact s body s' hs hnext) rfl

/-- A loop seen through a map of its states. -/
theorem loop_map {τ : Type} (g : σ → τ) {act : σ → List α → Except ε σ}
    {act' : τ → List α → Except ε τ} (hact : ∀ s body, (act s body).map g = act' (g s) body)
    (buf : List α) (s : σ) :
    (loop f act buf s).map (Prod.map g id) = loop f act' buf (g s) := by
  induction hn : buf.length using Nat.strong_induction_on generalizing buf s with
  | _ n ih =>
    rw [loop, loop]
    split
    · rfl
    · rfl
    · rename_i body rest h
      rw [← hact]
      cases act s body with
      | error e => rfl
      | ok s' => exact ih _ (hn ▸ next_frame_rest_length h) rest s' rfl

/-- A single well-formed frame. -/
def IsFrame (f : Format α) (body : List α) : Prop := next f body = .frame body []

/-- Whatever is cut out of a buffer is a well-formed frame. -/
theorem isFrame_of_mem_drain {buf body : List α} (h : body ∈ (drain f buf).1) :
    IsFrame f body := by
  induction hn : buf.length using Nat.strong_induction_on generalizing buf with
  | _ n ih =>
    cases hnext : next f buf with
    | incomplete => simp [drain_of_incomplete hnext] at h
    | invalid => simp [drain_of_invalid hnext] at h
    | frame first rest =>
        rw [drain_of_frame hnext, List.mem_cons] at h
        rcases h with rfl | h
        · exact next_congr_of_frame hnext
        · exact ih _ (hn ▸ next_frame_rest_length hnext) h rfl

/-- Well-formed frames written one after the other are cut apart again, and what
follows them is left to the next call. -/
theorem drain_flatten_append {bodies : List (List α)} (h : ∀ body ∈ bodies, IsFrame f body)
    (tail : List α) :
    drain f (bodies.flatten ++ tail) = (bodies ++ (drain f tail).1, (drain f tail).2) := by
  induction bodies with
  | nil => simp
  | cons body bodies ih =>
      have hframe := next_append_frame (h body (by simp)) (bodies.flatten ++ tail)
      rw [List.flatten_cons, List.append_assoc, drain_of_frame hframe, List.nil_append,
        ih fun b hb => h b (by simp [hb])]
      rfl

theorem next_nil : next f [] = .incomplete := if_pos f.header_pos

/-- A frame that is cut off is incomplete. -/
theorem next_of_cut {a b : List α} (h : IsFrame f (a ++ b)) (hb : b ≠ []) :
    next f a = .incomplete := by
  obtain ⟨-, hlen, hheader, hlimit, -⟩ := next_frame h
  have hpos : 0 < b.length := List.length_pos_iff.mpr hb
  rw [List.length_append] at hlen
  by_cases hshort : a.length < f.header
  · rw [next, if_pos hshort]
  · have hsize : f.size (a ++ b) = f.size a := f.size_append a b (not_lt.mp hshort)
    rw [next, if_neg hshort, if_neg (by omega), if_pos (by omega)]

/-- The beginning of a stream of frames: some of the frames are complete, and what is left
over belongs to the others. -/
theorem drain_of_append_eq_flatten {bodies : List (List α)} (h : ∀ body ∈ bodies, IsFrame f body)
    {a b : List α} (hab : a ++ b = bodies.flatten) :
    ∃ done left rest, bodies = done ++ left ∧ drain f a = (done, some rest) ∧
      rest ++ b = left.flatten := by
  induction bodies generalizing a with
  | nil =>
      obtain ⟨rfl, rfl⟩ := List.append_eq_nil_iff.mp hab
      exact ⟨[], [], [], rfl, drain_of_incomplete next_nil, rfl⟩
  | cons body bodies ih =>
      have hbody : IsFrame f body := h body List.mem_cons_self
      rw [List.flatten_cons] at hab
      -- The cut lies behind the first frame or inside it.
      rcases List.append_eq_append_iff.mp hab with ⟨c, hc, hb⟩ | ⟨a', rfl, hrest⟩
      · rcases eq_or_ne c [] with rfl | hne
        · obtain ⟨done, left, rest, rfl, hdrain, hleft⟩ :=
            ih (a := []) (fun x hx => h x (List.mem_cons_of_mem body hx)) (by simpa using hb)
          rw [List.append_nil] at hc
          refine ⟨body :: done, left, rest, rfl, ?_, hleft⟩
          rw [← hc, drain_of_frame hbody, hdrain]
        · refine ⟨[], body :: bodies, a, rfl, drain_of_incomplete ?_, ?_⟩
          · exact next_of_cut (hc ▸ hbody) hne
          · rw [List.flatten_cons, hab]
      · obtain ⟨done, left, rest, rfl, hdrain, hleft⟩ :=
          ih (fun x hx => h x (List.mem_cons_of_mem body hx)) hrest.symm
        refine ⟨body :: done, left, rest, rfl, ?_, hleft⟩
        rw [drain_of_frame (next_append_frame hbody a'), List.nil_append, hdrain]

end Framing
