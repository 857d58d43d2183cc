import Ifconfigd.Parent.Actions

/-!
# What the parent reads of a message

`main_dispatch_ifconfigde` looks at the payload of one kind of message only: for
`IMSG_USE_ETHERNET` it copies `sizeof(name)` bytes, whatever the length in the header
says, and treats the copy as a string. Here the reads of a whole run are collected.
They stay inside the messages exactly if every such message that is treated carries at
least the size of the copy.
-/

namespace Ifconfigd.Parent

open CLib

variable {W : Type} (env : Callees W)

/-! ## The messages of a run -/

/-- The messages that are treated and the world each one is found in. The last of them may
start an action that does not return. -/
def treated : Progress W → List Imsg → List (W × Imsg)
  | _, [] => []
  | p, m :: ms =>
      (p.world, m) ::
        match handleImsg env p m with
        | .ok q => treated q ms
        | .error _ => []

/-- The indices of the payload bytes that are read for a message: the source of `memcpy`. -/
def payloadReads (m : Imsg) : List Nat :=
  match ImsgType.ofCode m.hdr.type with
  | some .useEthernet => List.range maxNetworkNameSize
  | _ => []

/-- The buffers that are searched for as names on behalf of a message. -/
def searched (w : W) (m : Imsg) : List (List Byte) :=
  match ImsgType.ofCode m.hdr.type with
  | some .useEthernet => [copyName env w m]
  | _ => []

theorem payloadReads_of_ne {m : Imsg} (h : ImsgType.ofCode m.hdr.type ≠ some .useEthernet) :
    payloadReads m = [] := by
  unfold payloadReads
  split
  · contradiction
  · rfl

theorem searched_of_ne (w : W) {m : Imsg}
    (h : ImsgType.ofCode m.hdr.type ≠ some .useEthernet) : searched env w m = [] := by
  unfold searched
  split
  · contradiction
  · rfl

/-- The buffer holds the bytes read, in order. -/
theorem copyName_eq_reads (w : W) {m : Imsg}
    (h : ImsgType.ofCode m.hdr.type = some .useEthernet) :
    copyName env w m = (payloadReads m).map (pointer m.data (env.past w)) := by
  rw [payloadReads, h]
  rfl

/-- The names among the actions. -/
def namesOf (actions : List (Nat × Action)) : List (List Byte) :=
  actions.filterMap fun a =>
    match a.2 with
    | .useEthernet name => some name
    | .monitor => none

theorem namesOf_append (as bs : List (Nat × Action)) :
    namesOf (as ++ bs) = namesOf as ++ namesOf bs :=
  List.filterMap_append

theorem handleImsg_names (p : Progress W) (m : Imsg) :
    ∃ more, namesOf more = searched env p.world m ∧
      (handleImsg env p m = .error (p.actions ++ more) ∨
        ∃ w, handleImsg env p m = .ok ⟨w, p.count + 1, p.actions ++ more⟩) := by
  by_cases huse : ImsgType.ofCode m.hdr.type = some .useEthernet
  · simp only [handleImsg, searched, huse]
    rcases act_cases env p (.useEthernet (copyName env p.world m)) with ⟨w, -, h⟩ | ⟨-, h⟩
    · rw [h]
      refine ⟨[(p.count, .useEthernet (copyName env p.world m)), (p.count, .monitor)], rfl, ?_⟩
      rcases act_cases env ⟨w, p.count, p.actions ++
          [(p.count, .useEthernet (copyName env p.world m))]⟩ .monitor with ⟨w', -, h'⟩ | ⟨-, h'⟩
      · exact .inr ⟨w', by simp [h', bind, Except.bind, pure, Except.pure]⟩
      · exact .inl (by simp [h', bind, Except.bind])
    · exact ⟨[(p.count, .useEthernet (copyName env p.world m))], rfl,
        .inl (by simp [h, bind, Except.bind])⟩
  · rw [searched_of_ne env p.world huse]
    unfold handleImsg
    split
    · contradiction
    · rcases act_cases env p .monitor with ⟨w, -, h⟩ | ⟨-, h⟩
      · exact ⟨[(p.count, .monitor)], rfl, .inr ⟨w, by rw [h]; rfl⟩⟩
      · exact ⟨[(p.count, .monitor)], rfl, .inl (by rw [h]; rfl)⟩
    · exact ⟨[], rfl, .inr ⟨p.world, by simp [bind, Except.bind, pure, Except.pure]⟩⟩

/-- The names a run searches for are the copies made for the messages it treats. -/
theorem namesOf_foldlM (ms : List Imsg) (p : Progress W) :
    namesOf (actionsOf (ms.foldlM (handleImsg env) p)) =
      namesOf p.actions ++ (treated env p ms).flatMap fun x => searched env x.1 x.2 := by
  induction ms generalizing p with
  | nil => simp [treated, actionsOf, pure, Except.pure]
  | cons m ms ih =>
      obtain ⟨more, hmore, herror | ⟨w, hok⟩⟩ := handleImsg_names env p m
      · simp [treated, List.foldlM_cons, herror, bind, Except.bind, actionsOf, namesOf_append,
          hmore]
      · simp [treated, List.foldlM_cons, hok, bind, Except.bind, ih, namesOf_append, hmore]

/-! ## Staying inside the message -/

/-- Everything a run reads of its messages lies inside them, and every name it searches
for ends inside its buffer. -/
structure ReadsInside (ms : List (W × Imsg)) (actions : List (Nat × Action)) : Prop where
  payload : ∀ x ∈ ms, ∀ i ∈ payloadReads x.2, i < x.2.data.length
  terminated : ∀ name ∈ namesOf actions, name.length = maxNetworkNameSize ∧ 0 ∈ name

/-- The message carries a whole buffer with a string in it. -/
def CarriesName (m : Imsg) : Prop :=
  maxNetworkNameSize ≤ m.data.length ∧ 0 ∈ m.data.take maxNetworkNameSize

theorem memcpy_of_le {k : Nat} {data : List Byte} (past : Nat → Byte) (h : k ≤ data.length) :
    memcpy k (pointer data past) = data.take k := by
  apply List.ext_getElem?
  intro i
  by_cases hi : i < k
  · rw [memcpy_getElem? _ hi, List.getElem?_take_of_lt hi, List.getElem?_eq_getElem (by omega),
      pointer_of_getElem? (List.getElem?_eq_getElem (by omega))]
  · rw [List.getElem?_eq_none (by simpa using hi), List.getElem?_eq_none (by simp; omega)]

/-- One message: what is read lies inside it and the copy is terminated, exactly if it
carries a name or is of another type. -/
theorem reads_message_iff (w : W) (m : Imsg) :
    ((∀ i ∈ payloadReads m, i < m.data.length) ∧
        ∀ name ∈ searched env w m, name.length = maxNetworkNameSize ∧ 0 ∈ name) ↔
      (m.hdr.type = ImsgType.useEthernet.code → CarriesName m) := by
  by_cases htype : ImsgType.ofCode m.hdr.type = some .useEthernet
  · have hcode := ImsgType.ofCode_eq_some htype
    simp only [payloadReads, searched, hcode, ImsgType.ofCode_code, true_implies,
      List.mem_singleton, forall_eq, List.mem_range]
    constructor
    · rintro ⟨hreads, -, hzero⟩
      have hlen : maxNetworkNameSize ≤ m.data.length :=
        hreads (maxNetworkNameSize - 1) (by decide)
      rw [copyName, memcpy_of_le _ hlen] at hzero
      exact ⟨hlen, hzero⟩
    · rintro ⟨hlen, hzero⟩
      refine ⟨fun i hi => Nat.lt_of_lt_of_le hi hlen, memcpy_length _ _, ?_⟩
      rw [copyName, memcpy_of_le _ hlen]
      exact hzero
  · have hother : m.hdr.type ≠ ImsgType.useEthernet.code := by
      intro hcode
      rw [hcode, ImsgType.ofCode_code] at htype
      exact htype rfl
    constructor
    · exact fun _ hcode => absurd hcode hother
    · intro _
      rw [payloadReads_of_ne htype, searched_of_ne env w htype]
      exact ⟨nofun, nofun⟩

/-- For every sequence of messages, however cut into reads, and whatever the actions do:
the parent reads inside the messages and searches for terminated names exactly if every
`IMSG_USE_ETHERNET` it treats carries a whole buffer with a NUL in it. -/
theorem readsInside_iff (fd : Nat) (pid : UInt32) (w : W) {ms : List Imsg}
    {answers : List Recv} (hms : ∀ m ∈ ms, m.WellFormed)
    (hdel : Delivers answers (Imsg.wire ms)) :
    ReadsInside (treated env ⟨w, 0, []⟩ ms)
        (eventLoop env (.init fd pid w) answers).progress.actions ↔
      ∀ x ∈ treated env ⟨w, 0, []⟩ ms,
        x.2.hdr.type = ImsgType.useEthernet.code → CarriesName x.2 := by
  have hreceived : Imsg.received (Imsg.wire ms) = ms := by
    have h := Imsg.received_wire_append hms (rfl : Framing.next Imsg.format [] = .incomplete)
    rwa [List.append_nil] at h
  have hrun : (eventLoop env (.init fd pid w) answers).progress.actions =
      actionsOf (ms.foldlM (handleImsg env) ⟨w, 0, []⟩) := by
    have h := eventLoop_actions env hdel (.init fd pid w) rfl rfl
    rwa [show (Process.init fd pid w).iev.ibuf.r ++ Imsg.wire ms = Imsg.wire ms from rfl,
      hreceived] at h
  have hnames : namesOf (eventLoop env (.init fd pid w) answers).progress.actions =
      (treated env ⟨w, 0, []⟩ ms).flatMap fun x => searched env x.1 x.2 := by
    rw [hrun, namesOf_foldlM]
    rfl
  constructor
  · rintro ⟨hpayload, hterminated⟩ x hx
    refine (reads_message_iff env x.1 x.2).1 ⟨hpayload x hx, fun name hname => ?_⟩
    apply hterminated
    rw [hnames]
    exact List.mem_flatMap.2 ⟨x, hx, hname⟩
  · intro h
    refine ⟨fun x hx => ((reads_message_iff env x.1 x.2).2 (h x hx)).1, ?_⟩
    rw [hnames]
    intro name hname
    obtain ⟨x, hx, hname⟩ := List.mem_flatMap.1 hname
    exact ((reads_message_iff env x.1 x.2).2 (h x hx)).2 name hname

/-- A request for the section `em0` with a payload of `size` bytes. -/
def useEm0 (size : Nat) : Imsg :=
  ⟨⟨ImsgType.useEthernet.code, .ofNat (Imsg.headerSize + size), 0, 0, 7⟩,
    strncpy size (CStr.lit "em0")⟩

theorem readsInside_iff_em0 :
    let env : Callees Unit := ⟨fun _ _ => some (), fun _ _ => 1⟩
    ReadsInside (treated env ⟨(), 0, []⟩ [useEm0 64])
      (eventLoop env (.init 3 9 ()) [.bytes (useEm0 64).encode]).progress.actions := by
  intro env
  have hdel : Delivers [.bytes (useEm0 64).encode] (Imsg.wire [useEm0 64]) :=
    .cons (.bytes (by decide)) .nil
  refine (readsInside_iff env 3 9 () (by decide) hdel).2 ?_
  intro x hx _
  cases List.mem_singleton.1 hx
  unfold CarriesName
  decide

/-- The message the engine passes on carries the size of a pointer, eight bytes: the
parent reads the 56 bytes behind it as well, and if none of them is zero it searches for
a name without an end. -/
theorem readsInside_fails_engine :
    let env : Callees Unit := ⟨fun _ _ => some (), fun _ _ => 1⟩
    let m : Imsg := ⟨⟨ImsgType.useEthernet.code, 24, 0, 0, 7⟩, asciiBytes "external"⟩
    m.WellFormed ∧ ((), m) ∈ treated env ⟨(), 0, []⟩ [m] ∧
      8 ∈ payloadReads m ∧ ¬8 < m.data.length ∧
      ∃ name ∈ namesOf (eventLoop env (.init 3 9 ()) [.bytes m.encode]).progress.actions,
        0 ∉ name := by
  decide +kernel

end Ifconfigd.Parent
