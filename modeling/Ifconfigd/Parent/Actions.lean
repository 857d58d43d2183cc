import Ifconfigd.Parent

/-!
# What the parent does with its requests

The dispatcher treats the messages of the pipe in order, however they were cut
into reads: `eventLoop_actions` reduces a whole run to a fold over the messages.
The fold performs one action per request as long as no `IMSG_USE_ETHERNET` is
acted upon; where one is, its missing `break` adds a monitor run.

The second part is about `monitor`, whose first `return` is unconditional.
-/

namespace Ifconfigd.Parent

open CLib

section Dispatch

variable {W : Type} (env : Callees W)

/-- The actions begun by a dispatch, whether or not the last one returned. -/
def actionsOf : Except (List (Nat × Action)) (Progress W) → List (Nat × Action)
  | .ok p => p.actions
  | .error actions => actions

/-- One message, one action: the action a message asks for, and no other. -/
def intended (p : Progress W) (m : Imsg) : Except (List (Nat × Action)) (Progress W) := do
  let p ← match ImsgType.ofCode m.hdr.type with
    | some .useEthernet => act env p (.useEthernet (copyName env p.world m))
    | some .ifconfigdMonitor => act env p .monitor
    | _ => pure p
  return { p with count := p.count + 1 }

/-- An answer of the pipe that keeps the connection, and the bytes it carries. -/
inductive Carries : Recv → List Byte → Prop
  | again : Carries .again []
  | bytes {b : List Byte} (h : b ≠ []) : Carries (.bytes b) b

/-- The pipe delivers a byte stream, cut into reads in any way. -/
inductive Delivers : List Recv → List Byte → Prop
  | nil : Delivers [] []
  | cons {a : Recv} {b : List Byte} {answers : List Recv} {stream : List Byte} :
      Carries a b → Delivers answers stream → Delivers (a :: answers) (b ++ stream)

/-! ### From reads to messages -/

/-- One read event of the parent that appends `chunk` to the buffer. -/
theorem mainDispatch_read (proc : Process W) {recv : Recv} {chunk : List Byte}
    (h : Carries recv chunk) :
    mainDispatchIfconfigde env proc ⟨true, false⟩ recv .again =
      match (((Framing.drain Imsg.format (proc.iev.ibuf.r ++ chunk)).1.map Imsg.ofFrame).foldlM
          (handleImsg env) proc.progress) with
      | .error actions =>
          { proc with status := .busy, progress := { proc.progress with actions } }
      | .ok progress =>
          match (Framing.drain Imsg.format (proc.iev.ibuf.r ++ chunk)).2 with
          | none => { proc with status := .fatal, progress }
          | some rest =>
              ⟨Imsgev.imsgEventAdd { proc.iev with ibuf := { proc.iev.ibuf with r := rest } },
                .running, progress⟩ := by
  have hread : ∃ n : Int, n ≠ -1 ∧ n ≠ 0 ∧ proc.iev.ibuf.imsgRead recv =
      ({ proc.iev.ibuf with r := proc.iev.ibuf.r ++ chunk }, n) := by
    cases h with
    | again => exact ⟨-2, by decide, by decide, by simp [Imsgbuf.imsgRead]⟩
    | bytes hb =>
        have hpos : 0 < chunk.length := List.length_pos_iff.mpr hb
        exact ⟨chunk.length, by omega, by omega, rfl⟩
  obtain ⟨n, hfail, hclosed, hread⟩ := hread
  rw [mainDispatchIfconfigde, hread, List.foldlM_map]
  simp only [↓reduceIte, Bool.false_eq_true, if_neg hfail, if_neg hclosed,
    Framing.loop_eq_foldlM, show ¬((0 : Int) = -1) by decide]
  cases (Framing.drain Imsg.format (proc.iev.ibuf.r ++ chunk)).1.foldlM
      (fun p frame => handleImsg env p (Imsg.ofFrame frame)) proc.progress with
  | error actions => rfl
  | ok progress =>
      cases (Framing.drain Imsg.format (proc.iev.ibuf.r ++ chunk)).2 <;> rfl

/-- A parent that has left its loop, or hangs in an action, does nothing more. -/
theorem eventLoop_stopped (proc : Process W) (answers : List Recv)
    (h : proc.status ≠ .running) : eventLoop env proc answers = proc := by
  induction answers with
  | nil => rfl
  | cons a answers ih =>
      rw [eventLoop, List.foldl_cons, if_neg h]
      exact ih

/-- A whole run: the actions are those of the messages found in the stream, in
order, however the stream was cut. -/
theorem eventLoop_actions {answers : List Recv} {stream : List Byte}
    (h : Delivers answers stream) (proc : Process W) (hrun : proc.status = .running)
    (hrest : Framing.next Imsg.format proc.iev.ibuf.r = .incomplete) :
    (eventLoop env proc answers).progress.actions =
      actionsOf ((Imsg.received (proc.iev.ibuf.r ++ stream)).foldlM (handleImsg env)
        proc.progress) := by
  induction h generalizing proc with
  | nil =>
      rw [List.append_nil, Imsg.received, Framing.drain_of_incomplete hrest]
      rfl
  | @cons a b answers stream ha _ ih =>
      have hsplit : Imsg.received (proc.iev.ibuf.r ++ (b ++ stream)) =
          ((Framing.drain Imsg.format (proc.iev.ibuf.r ++ b)).1.map Imsg.ofFrame) ++
            match (Framing.drain Imsg.format (proc.iev.ibuf.r ++ b)).2 with
            | none => []
            | some rest => Imsg.received (rest ++ stream) := by
        rw [Imsg.received, ← List.append_assoc, Framing.drain_append]
        cases (Framing.drain Imsg.format (proc.iev.ibuf.r ++ b)).2 <;> simp [Imsg.received]
      rw [eventLoop, List.foldl_cons, if_pos hrun, mainDispatch_read env proc ha, hsplit,
        List.foldlM_append]
      cases ((Framing.drain Imsg.format (proc.iev.ibuf.r ++ b)).1.map Imsg.ofFrame).foldlM
          (handleImsg env) proc.progress with
      | error actions =>
          have hstop := eventLoop_stopped env
            { proc with status := .busy, progress := { proc.progress with actions } } answers
            (by simp)
          exact congrArg (fun p => p.progress.actions) hstop
      | ok progress =>
          cases hdrain : (Framing.drain Imsg.format (proc.iev.ibuf.r ++ b)).2 with
          | none =>
              have hstop := eventLoop_stopped env { proc with status := .fatal, progress }
                answers (by simp)
              exact congrArg (fun p => p.progress.actions) hstop
          | some rest => exact ih _ rfl (Framing.next_of_drain_rest hdrain)

/-! ### One action per message -/

theorem act_cases (p : Progress W) (a : Action) :
    (∃ w, env.perform a p.world = some w ∧
        act env p a = .ok ⟨w, p.count, p.actions ++ [(p.count, a)]⟩) ∨
      (env.perform a p.world = none ∧ act env p a = .error (p.actions ++ [(p.count, a)])) := by
  cases h : env.perform a p.world with
  | none => exact Or.inr ⟨rfl, by simp [act, h]⟩
  | some w => exact Or.inl ⟨w, rfl, by simp [act, h]⟩

/-- A message treatment that only adds actions marked with its own number, and
counts the message when it is through. -/
def Grows (h : Progress W → Imsg → Except (List (Nat × Action)) (Progress W)) : Prop :=
  ∀ p m, ∃ more : List (Nat × Action), (∀ a ∈ more, a.1 = p.count) ∧
    (h p m = .error (p.actions ++ more) ∨
      ∃ w, h p m = .ok ⟨w, p.count + 1, p.actions ++ more⟩)

/-- A single action of a message. -/
theorem act_grows (p : Progress W) (a : Action) :
    ∃ more : List (Nat × Action), (∀ b ∈ more, b.1 = p.count) ∧
      (act env p a = .error (p.actions ++ more) ∨
        ∃ w, act env p a = .ok ⟨w, p.count, p.actions ++ more⟩) := by
  refine ⟨[(p.count, a)], by simp, ?_⟩
  rcases act_cases env p a with ⟨w, -, h⟩ | ⟨-, h⟩
  · exact Or.inr ⟨w, h⟩
  · exact Or.inl h

theorem handleImsg_grows : Grows (handleImsg env) := by
  intro p m
  unfold handleImsg
  split
  · obtain ⟨use, huse, h | ⟨w, h⟩⟩ := act_grows env p (.useEthernet (copyName env p.world m))
    · exact ⟨use, huse, Or.inl (by rw [h]; rfl)⟩
    · obtain ⟨mon, hmon, hnext⟩ := act_grows env ⟨w, p.count, p.actions ++ use⟩ .monitor
      refine ⟨use ++ mon, ?_, ?_⟩
      · intro a ha
        rcases List.mem_append.mp ha with ha | ha
        · exact huse a ha
        · exact hmon a ha
      · rcases hnext with h' | ⟨w', h'⟩
        · exact Or.inl (by simp [h, h', bind, Except.bind])
        · exact Or.inr ⟨w', by simp [h, h', bind, Except.bind, pure, Except.pure]⟩
  · obtain ⟨mon, hmon, h | ⟨w, h⟩⟩ := act_grows env p .monitor
    · exact ⟨mon, hmon, Or.inl (by rw [h]; rfl)⟩
    · exact ⟨mon, hmon, Or.inr ⟨w, by rw [h]; rfl⟩⟩
  · exact ⟨[], by simp, Or.inr ⟨p.world, by simp [bind, Except.bind, pure, Except.pure]⟩⟩

theorem intended_grows : Grows (intended env) := by
  intro p m
  unfold intended
  split
  · obtain ⟨use, huse, h | ⟨w, h⟩⟩ := act_grows env p (.useEthernet (copyName env p.world m))
    · exact ⟨use, huse, Or.inl (by rw [h]; rfl)⟩
    · exact ⟨use, huse, Or.inr ⟨w, by rw [h]; rfl⟩⟩
  · obtain ⟨mon, hmon, h | ⟨w, h⟩⟩ := act_grows env p .monitor
    · exact ⟨mon, hmon, Or.inl (by rw [h]; rfl)⟩
    · exact ⟨mon, hmon, Or.inr ⟨w, by rw [h]; rfl⟩⟩
  · exact ⟨[], by simp, Or.inr ⟨p.world, by simp [bind, Except.bind, pure, Except.pure]⟩⟩

/-- Treating more messages keeps the actions so far, and whatever is added carries
the number of a message not treated before. -/
theorem Grows.foldlM {h : Progress W → Imsg → Except (List (Nat × Action)) (Progress W)}
    (hg : Grows h) (ms : List Imsg) (p : Progress W) :
    ∃ more, actionsOf (ms.foldlM h p) = p.actions ++ more ∧ ∀ a ∈ more, p.count ≤ a.1 := by
  induction ms generalizing p with
  | nil => exact ⟨[], by simp [actionsOf, pure, Except.pure], by simp⟩
  | cons m ms ih =>
      obtain ⟨new, hnew, herror | ⟨w, hok⟩⟩ := hg p m
      · refine ⟨new, ?_, fun a ha => (hnew a ha).ge⟩
        simp [List.foldlM_cons, herror, bind, Except.bind, actionsOf]
      · obtain ⟨more, hmore, hcount⟩ := ih ⟨w, p.count + 1, p.actions ++ new⟩
        refine ⟨new ++ more, ?_, ?_⟩
        · simpa [List.foldlM_cons, hok, bind, Except.bind] using hmore
        · intro a ha
          rcases List.mem_append.mp ha with ha | ha
          · exact (hnew a ha).ge
          · exact Nat.le_of_succ_le (hcount a ha)

/-- No `IMSG_USE_ETHERNET` is acted upon by a `use_ethernet` that returns. -/
def NoUseReturns (p : Progress W) (ms : List Imsg) : Prop :=
  ∀ i m, ms[i]? = some m → m.hdr.type = ImsgType.useEthernet.code →
    ∀ q, (ms.take i).foldlM (intended env) p = .ok q →
      env.perform (.useEthernet (copyName env q.world m)) q.world = none

/-- The condition, taken apart at the first message. -/
theorem noUseReturns_cons (p : Progress W) (m : Imsg) (ms : List Imsg) :
    NoUseReturns env p (m :: ms) ↔
      (m.hdr.type = ImsgType.useEthernet.code →
          env.perform (.useEthernet (copyName env p.world m)) p.world = none) ∧
        ∀ q, intended env p m = .ok q → NoUseReturns env q ms := by
  constructor
  · intro h
    refine ⟨fun htype => h 0 m rfl htype p rfl, ?_⟩
    intro q hq i m' hm' htype q' hq'
    refine h (i + 1) m' (by simpa using hm') htype q' ?_
    simpa [List.foldlM_cons, hq, bind, Except.bind] using hq'
  · rintro ⟨hhead, htail⟩ i m' hm' htype q' hq'
    cases i with
    | zero =>
        have hm : m = m' := by simpa using hm'
        have hq : p = q' := by simpa [pure, Except.pure] using hq'
        subst hm hq
        exact hhead htype
    | succ i =>
        cases hstep : intended env p m with
        | error e => simp [List.foldlM_cons, hstep, bind, Except.bind] at hq'
        | ok q =>
            refine htail q hstep i m' (by simpa using hm') htype q' ?_
            simpa [List.foldlM_cons, hstep, bind, Except.bind] using hq'

/-- A `use_ethernet` that returns is followed by a monitor run nobody asked for. -/
theorem actions_ne_of_use {p : Progress W} {m : Imsg} {w : W} (ms : List Imsg)
    (htype : m.hdr.type = ImsgType.useEthernet.code)
    (hret : env.perform (.useEthernet (copyName env p.world m)) p.world = some w) :
    actionsOf ((m :: ms).foldlM (handleImsg env) p) ≠
      actionsOf ((m :: ms).foldlM (intended env) p) := by
  have hact : act env p (.useEthernet (copyName env p.world m)) =
      .ok ⟨w, p.count, p.actions ++ [(p.count, .useEthernet (copyName env p.world m))]⟩ := by
    simp [act, hret]
  -- After the message the source has also begun a monitor run under its number.
  have hcode : ∃ more, actionsOf ((m :: ms).foldlM (handleImsg env) p) = p.actions ++
      (p.count, .useEthernet (copyName env p.world m)) :: (p.count, .monitor) :: more := by
    rcases act_cases env ⟨w, p.count, p.actions ++
        [(p.count, .useEthernet (copyName env p.world m))]⟩ .monitor with ⟨w', -, h'⟩ | ⟨-, h'⟩
    · obtain ⟨more, hmore, -⟩ := (handleImsg_grows env).foldlM ms ⟨w', p.count + 1, p.actions ++
        [(p.count, .useEthernet (copyName env p.world m)), (p.count, .monitor)]⟩
      refine ⟨more, ?_⟩
      simpa [List.foldlM_cons, handleImsg, htype, hact, h', bind, Except.bind, pure, Except.pure]
        using hmore
    · refine ⟨[], ?_⟩
      simp [List.foldlM_cons, handleImsg, htype, hact, h', bind, Except.bind, actionsOf]
  have hspec : ∃ more, actionsOf ((m :: ms).foldlM (intended env) p) = p.actions ++
      (p.count, .useEthernet (copyName env p.world m)) :: more ∧
        ∀ a ∈ more, p.count + 1 ≤ a.1 := by
    obtain ⟨more, hmore, hcount⟩ := (intended_grows env).foldlM ms ⟨w, p.count + 1, p.actions ++
      [(p.count, .useEthernet (copyName env p.world m))]⟩
    refine ⟨more, ?_, hcount⟩
    simpa [List.foldlM_cons, intended, htype, hact, bind, Except.bind, pure, Except.pure]
      using hmore
  obtain ⟨more, hcode⟩ := hcode
  obtain ⟨more', hspec, hcount⟩ := hspec
  rw [hcode, hspec]
  intro heq
  have htail := (List.cons.inj (List.append_cancel_left heq)).2
  have hmem : (p.count, Action.monitor) ∈ more' := htail ▸ List.mem_cons_self
  exact absurd (hcount _ hmem) (by simp)

theorem handleImsg_eq_intended {p : Progress W} {m : Imsg}
    (h : m.hdr.type = ImsgType.useEthernet.code →
      env.perform (.useEthernet (copyName env p.world m)) p.world = none) :
    handleImsg env p m = intended env p m := by
  by_cases htype : m.hdr.type = ImsgType.useEthernet.code
  · simp [handleImsg, intended, htype, act, h htype, bind, Except.bind]
  · have hother : ImsgType.ofCode m.hdr.type ≠ some .useEthernet :=
      fun hcode => htype (ImsgType.ofCode_eq_some hcode)
    cases hcode : ImsgType.ofCode m.hdr.type with
    | none => simp only [handleImsg, intended, hcode]
    | some t =>
        cases t <;> simp_all only [handleImsg, intended, ne_eq, not_true_eq_false]

/-- The fold of the dispatcher does what the messages ask for exactly if no
`use_ethernet` that was asked for returns. -/
theorem foldlM_actions_eq_iff (ms : List Imsg) (p : Progress W) :
    actionsOf (ms.foldlM (handleImsg env) p) = actionsOf (ms.foldlM (intended env) p) ↔
      NoUseReturns env p ms := by
  induction ms generalizing p with
  | nil => simp [NoUseReturns]
  | cons m ms ih =>
      rw [noUseReturns_cons]
      by_cases h : m.hdr.type = ImsgType.useEthernet.code →
          env.perform (.useEthernet (copyName env p.world m)) p.world = none
      · rw [List.foldlM_cons, List.foldlM_cons, handleImsg_eq_intended env h]
        cases hstep : intended env p m with
        | error e =>
            refine iff_of_true rfl ⟨h, fun q hq => ?_⟩
            cases hq
        | ok q =>
            refine (ih q).trans ⟨fun hq => ⟨h, fun q' hq' => ?_⟩, fun hcond => hcond.2 q rfl⟩
            cases hq'
            exact hq
      · have hne : ∃ w, env.perform (.useEthernet (copyName env p.world m)) p.world = some w := by
          rw [← Option.isSome_iff_exists, Option.isSome_iff_ne_none]
          exact fun hnone => h fun _ => hnone
        obtain ⟨w, hret⟩ := hne
        have htype : m.hdr.type = ImsgType.useEthernet.code := by
          by_contra hother
          exact h fun heq => absurd heq hother
        exact iff_of_false (actions_ne_of_use env ms htype hret) fun hcond => h hcond.1

/-- For every sequence of messages, however cut into reads, the parent performs one
action per message and in message order exactly if no `IMSG_USE_ETHERNET` among
them is acted upon by a `use_ethernet` that returns. -/
theorem one_action_per_message_iff (fd : Nat) (pid : UInt32) (w : W) {ms : List Imsg}
    {answers : List Recv} (hms : ∀ m ∈ ms, m.WellFormed)
    (hdel : Delivers answers (Imsg.wire ms)) :
    (eventLoop env (.init fd pid w) answers).progress.actions =
        actionsOf (ms.foldlM (intended env) ⟨w, 0, []⟩) ↔
      NoUseReturns env ⟨w, 0, []⟩ ms := by
  have hreceived : Imsg.received (Imsg.wire ms) = ms := by
    have hnil : Framing.next Imsg.format [] = .incomplete := rfl
    have h := Imsg.received_wire_append hms hnil
    rwa [List.append_nil] at h
  have hrun := eventLoop_actions env hdel (.init fd pid w) rfl rfl
  have hbuf : (Process.init fd pid w).iev.ibuf.r ++ Imsg.wire ms = Imsg.wire ms := rfl
  rw [hrun, hbuf, hreceived]
  exact foldlM_actions_eq_iff env ms ⟨w, 0, []⟩

/-- A request that names no section: `use_ethernet` comes back, and the parent goes
on to run the monitor for the same message. -/
theorem use_ethernet_also_monitors :
    let env : Callees Unit := ⟨fun _ _ => some (), fun _ _ => 0⟩
    let m : Imsg := ⟨⟨ImsgType.useEthernet.code, 24, 0, 0, 7⟩, asciiBytes "em0" ++ [0, 0, 0, 0, 0]⟩
    (eventLoop env (.init 3 9 ()) [.bytes m.encode]).progress.actions =
        [(0, .useEthernet (copyName env () m)), (0, .monitor)] ∧
      (eventLoop env (.init 3 9 ()) [.bytes m.encode]).progress.actions ≠
        actionsOf ([m].foldlM (intended env) ⟨(), 0, []⟩) := by
  decide +kernel

/-- Monitor requests and unknown types, sent in one read that splits the second
message. -/
theorem one_action_per_message_iff_monitor :
    let env : Callees Unit := ⟨fun _ _ => some (), fun _ _ => 0⟩
    let ms : List Imsg := [⟨⟨ImsgType.ifconfigdMonitor.code, 16, 0, 0, 7⟩, []⟩,
      ⟨⟨ImsgType.showWireless.code, 16, 0, 0, 7⟩, []⟩]
    (eventLoop env (.init 3 9 ())
      [.bytes ((Imsg.wire ms).take 20), .again, .bytes ((Imsg.wire ms).drop 20)]).progress.actions =
        actionsOf (ms.foldlM (intended env) ⟨(), 0, []⟩) := by
  intro env ms
  have hdel : Delivers [.bytes ((Imsg.wire ms).take 20), .again, .bytes ((Imsg.wire ms).drop 20)]
      (Imsg.wire ms) := by
    have h := Delivers.cons (.bytes (b := (Imsg.wire ms).take 20) (by decide))
      (.cons .again (.cons (.bytes (b := (Imsg.wire ms).drop 20) (by decide)) .nil))
    rwa [List.nil_append, List.append_nil, List.take_append_drop] at h
  refine (one_action_per_message_iff env 3 9 () (by decide) hdel).mpr ?_
  intro i m hm htype
  match i, hm with
  | 0, hm => cases hm; exact absurd htype (by decide)
  | 1, hm => cases hm; exact absurd htype (by decide)

end Dispatch

/-! ## The monitor -/

/-- Every round that is run polls the ethernet sections and returns. -/
theorem monitorRound_eq (conf : IfconfigdConf) (ethernet : Nat → EthernetOutcome)
    (wireless : Nat → Int) (k : Nat) :
    monitorRound conf ethernet wireless k = (.error 0, .monitorEthernet ::
      if (ethernet k).value ≠ 0 then [.logInfo "ethernet connection successful"] else []) := by
  unfold monitorRound monitorBody
  by_cases h : (ethernet k).value = 0
  · simp [h, call]
    rfl
  · simp [h, call]
    rfl

/-- Only the first round is ever run. -/
theorem reached_iff (conf : IfconfigdConf) (ethernet : Nat → EthernetOutcome)
    (wireless : Nat → Int) (k : Nat) : Reached conf ethernet wireless k ↔ k = 0 := by
  constructor
  · intro h
    by_contra hk
    have hfirst := h 0 (Nat.pos_of_ne_zero hk)
    rw [monitorRound_eq] at hfirst
    cases hfirst
  · rintro rfl j hj
    exact absurd hj (Nat.not_lt_zero j)

/-- `monitor` keeps its promises exactly for the outcomes in which the first call of
`monitor_ethernet` established a connection. -/
theorem monitorContract_iff (conf : IfconfigdConf) (ethernet : Nat → EthernetOutcome)
    (wireless : Nat → Int) :
    MonitorContract conf ethernet wireless ↔ ethernet 0 = .connect 0 := by
  constructor
  · intro h
    by_contra hnot
    have hpolls := h.polls 0 ((reached_iff conf ethernet wireless 0).mpr rfl) hnot
    rw [monitorRound_eq] at hpolls
    split at hpolls <;> simp at hpolls
  · intro hfirst
    have hconnects : Connects ethernet wireless 0 := Or.inl hfirst
    refine ⟨?_, ?_, ?_⟩
    · intro k
      rw [reached_iff, monitorRound_eq]
      refine ⟨?_, ?_⟩
      · rintro ⟨rfl, -⟩
        exact ⟨hconnects, fun j hj => absurd hj (Nat.not_lt_zero j)⟩
      · rintro ⟨-, hnone⟩
        refine ⟨?_, rfl⟩
        by_contra hk
        exact hnone 0 (Nat.pos_of_ne_zero hk) hconnects
    · intro k hk hnot
      rw [(reached_iff conf ethernet wireless k).mp hk] at hnot
      exact absurd hfirst hnot
    · intro k hk hnot
      rw [(reached_iff conf ethernet wireless k).mp hk] at hnot
      exact absurd hconnects hnot

/-- No cable, but a wireless network in range: `monitor` reports success without
having looked at the wireless sections. -/
theorem monitor_skips_wireless :
    let conf : IfconfigdConf := ⟨[], 30⟩
    let ethernet : Nat → EthernetOutcome := fun _ => .unchanged
    let wireless : Nat → Int := fun _ => 0
    (monitorRound conf ethernet wireless 0).1 = .error 0 ∧
      .monitorWireless ∉ (monitorRound conf ethernet wireless 0).2 ∧
      ¬ MonitorContract conf ethernet wireless := by
  intro conf ethernet wireless
  have hcalls : MonitorCall.monitorWireless ∉ (monitorRound conf ethernet wireless 0).2 := by
    decide
  refine ⟨rfl, hcalls, fun h => hcalls ?_⟩
  exact h.polls 0 (fun j hj => absurd hj (Nat.not_lt_zero j)) (by decide)

end Ifconfigd.Parent
