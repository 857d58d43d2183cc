import Ifconfigd.Monitor.Wireless

/-!
# What a scan finds

`ieee80211_scan` compares the SSID of each access point with the network ids asked for.
The SSID is an array with a length next to it; the length is put into a local variable,
cut down to the size of the array, and then not used. The comparison is `strcmp` from
the beginning of the array on: an SSID with a zero byte is cut short there, and one that
is not followed by a zero byte is read on into the next members.

`resault` receives pointers into the table, which are positions here.
-/

namespace Ifconfigd.Monitor

open CLib

/-- `IEEE80211_NWID_LEN`. -/
def nwidSize : Nat := 32

/-- The number of entries in the tables of `ieee80211_scan` and of its caller. -/
def scanSize : Nat := 512

/-- An entry of the table the kernel fills in: a node and `nr_nwid_len`. -/
structure Entry where
  node : Nodereq
  nwidLen : Nat
  nwidLen_le : nwidLen ≤ nwidSize
  nwidSize_le : nwidSize ≤ node.nwid.length

/-- The SSID: the first `nr_nwid_len` bytes of the array. -/
def Entry.ssid (e : Entry) : List Byte := e.node.nwid.take e.nwidLen

/-- `strcmp(tnr->nr_nwid, nwid[x]) == 0`. -/
def Entry.comparesTo (e : Entry) (nwid : CStr) : Bool := CStr.read e.node.nwid = nwid

/-- The loops of `ieee80211_scan` from entry `i` on: the positions stored in `resault`. -/
def scanFrom (nwids : List CStr) : Nat → List Entry → List Nat
  | _, [] => []
  | i, e :: nr =>
      (if e.node.isAp then (nwids.filter e.comparesTo).map fun _ => i else []) ++
        scanFrom nwids (i + 1) nr

/-- An access point whose SSID was asked for. -/
def Entry.Wanted (nwids : List CStr) (e : Entry) : Prop :=
  e.node.isAp = true ∧ e.ssid ∈ nwids.map CStr.bytes

instance (nwids : List CStr) : DecidablePred (Entry.Wanted nwids) :=
  fun _ => inferInstanceAs (Decidable (_ ∧ _))

/-- The positions of the elements with `P`, in order, for a list that starts at `i`. -/
def positions {A : Type} (P : A → Prop) [DecidablePred P] (i : Nat) (l : List A) : List Nat :=
  ((l.zipIdx i).filter fun x => P x.1).map Prod.snd

/-- What a scan promises. -/
structure ScanContract (nwids : List CStr) (nr : List Entry) (resault : List Nat) : Prop where
  exact : resault = positions (Entry.Wanted nwids) 0 nr
  fits : resault.length ≤ scanSize

/-! ## The positions and the nodes -/

theorem matchNwids_some (nr : Nodereq) (nwids : List CStr) :
    matchNwids nr (nwids.map some) =
      some ((nwids.filter fun nwid => CStr.read nr.nwid = nwid).map fun _ => nr) := by
  induction nwids with
  | nil => rfl
  | cons nwid nwids ih =>
      simp only [List.map_cons, matchNwids, ih, Option.map_some, List.filter_cons]
      split <;> simp_all

/-- The nodes at the positions stored are those the caller finds. -/
theorem ieee80211Scan_eq_scanFrom (nwids : List CStr) (before nr : List Entry) :
    ieee80211Scan (nwids.map some) (nr.map Entry.node) =
      some ((scanFrom nwids before.length nr).filterMap fun i =>
        (before ++ nr)[i]?.map Entry.node) := by
  induction nr generalizing before with
  | nil => rfl
  | cons e nr ih =>
      have hrest := ih (before ++ [e])
      rw [List.append_assoc, List.length_append] at hrest
      have hget : (before ++ e :: nr)[before.length]? = some e := by simp
      simp only [List.map_cons, ieee80211Scan, matchNwids_some]
      rw [scanFrom]
      split
      · rw [hrest, Option.map_some, List.filterMap_append, List.filterMap_map]
        simp only [Function.comp_def, hget]
        simp
        rfl
      · exact hrest

section Positions

variable {A : Type} {P Q : A → Prop} [DecidablePred P] [DecidablePred Q]

theorem positions_cons (i : Nat) (a : A) (l : List A) :
    positions P i (a :: l) = (if P a then [i] else []) ++ positions P (i + 1) l := by
  by_cases h : P a <;> simp [positions, h]

theorem le_of_mem_positions {i j : Nat} {l : List A} (h : j ∈ positions P i l) : i ≤ j := by
  obtain ⟨x, hx, rfl⟩ := List.mem_map.1 h
  exact List.le_snd_of_mem_zipIdx (List.mem_filter.1 hx).1

theorem positions_length_le (i : Nat) (l : List A) : (positions P i l).length ≤ l.length := by
  have h := List.length_filter_le (fun x : A × Nat => decide (P x.1)) (l.zipIdx i)
  simpa [positions] using h

/-- The positions say which elements have the property. -/
theorem positions_eq_iff (i : Nat) (l : List A) :
    positions P i l = positions Q i l ↔ ∀ a ∈ l, P a ↔ Q a := by
  induction l generalizing i with
  | nil => simp [positions]
  | cons a l ih =>
      rw [List.forall_mem_cons, ← ih (i + 1), positions_cons, positions_cons]
      by_cases hP : P a <;> by_cases hQ : Q a
      · simp [hP, hQ]
      · -- Only the left side has the position of the head.
        refine iff_of_false ?_ (by simp [hP, hQ])
        intro h
        have hmem : i ∈ positions Q (i + 1) l := by
          simp only [hP, hQ, if_true, if_false, List.nil_append] at h
          exact h ▸ List.mem_cons_self
        exact absurd (le_of_mem_positions hmem) (by omega)
      · refine iff_of_false ?_ (by simp [hP, hQ])
        intro h
        have hmem : i ∈ positions P (i + 1) l := by
          simp only [hP, hQ, if_true, if_false, List.nil_append] at h
          exact h ▸ List.mem_cons_self
        exact absurd (le_of_mem_positions hmem) (by omega)
      · simp [hP, hQ]

end Positions

/-! ## What is found -/

/-- An access point whose array, read as a string, was asked for. -/
def Entry.Matched (nwids : List CStr) (e : Entry) : Prop :=
  e.node.isAp = true ∧ CStr.read e.node.nwid ∈ nwids

instance (nwids : List CStr) : DecidablePred (Entry.Matched nwids) :=
  fun _ => inferInstanceAs (Decidable (_ ∧ _))

/-- With distinct ids no entry is stored twice. -/
theorem scanFrom_eq_positions {nwids : List CStr} (h : nwids.Nodup) (i : Nat)
    (nr : List Entry) : scanFrom nwids i nr = positions (Entry.Matched nwids) i nr := by
  induction nr generalizing i with
  | nil => rfl
  | cons e nr ih =>
      have hfilter : nwids.filter e.comparesTo =
          if CStr.read e.node.nwid ∈ nwids then [CStr.read e.node.nwid] else [] := by
        have hcompares : e.comparesTo = fun nwid => decide (nwid = CStr.read e.node.nwid) := by
          funext nwid
          simp only [Entry.comparesTo, eq_comm]
        rw [hcompares, List.filter_eq, h.count]
        split <;> rfl
      rw [scanFrom, ih, positions_cons, hfilter]
      by_cases hap : e.node.isAp <;> by_cases hmem : CStr.read e.node.nwid ∈ nwids <;>
        simp [Entry.Matched, hap, hmem]

/-- For every table of at most 512 entries and all distinct ids, a scan is exact if and
only if for each access point the string at its array was asked for exactly when its SSID
was. -/
theorem scan_exact_iff {nwids : List CStr} (h : nwids.Nodup) {nr : List Entry}
    (hsize : nr.length ≤ scanSize) :
    ScanContract nwids nr (scanFrom nwids 0 nr) ↔
      ∀ e ∈ nr, e.node.isAp = true →
        (CStr.read e.node.nwid ∈ nwids ↔ e.ssid ∈ nwids.map CStr.bytes) := by
  have hpointwise : scanFrom nwids 0 nr = positions (Entry.Wanted nwids) 0 nr ↔
      ∀ e ∈ nr, e.node.isAp = true →
        (CStr.read e.node.nwid ∈ nwids ↔ e.ssid ∈ nwids.map CStr.bytes) := by
    rw [scanFrom_eq_positions h, positions_eq_iff]
    simp only [Entry.Matched, Entry.Wanted, and_congr_right_iff]
  constructor
  · exact fun hscan => hpointwise.1 hscan.exact
  · intro hagree
    refine ⟨hpointwise.2 hagree, ?_⟩
    rw [scanFrom_eq_positions h]
    exact Nat.le_trans (positions_length_le 0 nr) hsize

/-- An access point with an SSID of some length in an array padded with zeros. -/
def entryOf (ssid : List Byte) (h : ssid.length ≤ nwidSize) : Entry where
  node := ⟨List.replicate 6 0, ssid ++ List.replicate nwidSize 0, 6, 200, 1⟩
  nwidLen := ssid.length
  nwidLen_le := h
  nwidSize_le := by simp

theorem scan_exact_iff_home :
    ScanContract [CStr.lit "home", CStr.lit "work"]
      [entryOf (asciiBytes "cafe") (by decide), entryOf (asciiBytes "home") (by decide)]
      (scanFrom [CStr.lit "home", CStr.lit "work"] 0
        [entryOf (asciiBytes "cafe") (by decide), entryOf (asciiBytes "home") (by decide)]) := by
  refine (scan_exact_iff (by decide) (by decide)).2 ?_
  decide

/-- An access point with the SSID `home` NUL `x` is taken for `home`. -/
theorem scan_takes_foreign_node :
    scanFrom [CStr.lit "home"] 0
        [entryOf (asciiBytes "home" ++ [0] ++ asciiBytes "x") (by decide)] = [0] ∧
      ¬ScanContract [CStr.lit "home"]
        [entryOf (asciiBytes "home" ++ [0] ++ asciiBytes "x") (by decide)]
        (scanFrom [CStr.lit "home"] 0
          [entryOf (asciiBytes "home" ++ [0] ++ asciiBytes "x") (by decide)]) := by
  refine ⟨by decide, fun h => ?_⟩
  have hexact := h.exact
  revert hexact
  decide

end Ifconfigd.Monitor
