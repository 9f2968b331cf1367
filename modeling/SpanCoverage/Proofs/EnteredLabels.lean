import SpanCoverage.Analysis.Points
import SpanCoverage.Proofs.WellFormed

/-!
# The labels that are entered

Which code of a unit is live depends on the labels that live jumps enter, and which jumps are live
depends on the code.  `Analysis.settle` repeats the walk over the tree until the labels do not
change any more.  More labels make more code live, so each repetition that changes anything adds a
label, and there are only as many as the unit has.

The main results are:

* `exits_mono` — with more labels entered and more code live, control leaves in more ways.
* `enteredLabels_repeats` — the repetition ends by itself, and the labels found are its last ones.
* `enteredLabels_closed` — the labels found are closed: every live jump names one of them.
-/

namespace SpanCoverage.Analysis

/-! ## More ways to leave -/

/-- Every way in which control leaves on the left is one on the right. -/
structure Exits.Within (x y : Exits) : Prop where
  falls : x.falls = true → y.falls = true
  breaks : x.breaks = true → y.breaks = true
  continues : x.continues = true → y.continues = true
  jumps : ∀ l ∈ x.jumps, l ∈ y.jumps

namespace Exits

variable {x x' y y' z : Exits}

theorem Within.refl (x : Exits) : x.Within x := ⟨id, id, id, fun _ => id⟩

theorem Within.trans (h : x.Within y) (h' : y.Within z) : x.Within z :=
  ⟨fun hf => h'.falls (h.falls hf), fun hb => h'.breaks (h.breaks hb),
    fun hc => h'.continues (h.continues hc), fun l hl => h'.jumps l (h.jumps l hl)⟩

theorem or_mono {a a' b b' : Bool} (ha : a = true → a' = true) (hb : b = true → b' = true) :
    (a || b) = true → (a' || b') = true := by
  simp only [Bool.or_eq_true]
  exact Or.imp ha hb

theorem and_mono {a a' b b' : Bool} (ha : a = true → a' = true) (hb : b = true → b' = true) :
    (a && b) = true → (a' && b') = true := by
  simp only [Bool.and_eq_true]
  exact And.imp ha hb

theorem append_mono {as as' bs bs' : List String} (ha : ∀ l ∈ as, l ∈ as')
    (hb : ∀ l ∈ bs, l ∈ bs') : ∀ l ∈ as ++ bs, l ∈ as' ++ bs' := by
  intro l hl
  rw [List.mem_append] at hl ⊢
  exact hl.imp (ha l) (hb l)

theorem Within.andThen (h : x.Within x') (h' : y.Within y') :
    (x.andThen y).Within (x'.andThen y') :=
  ⟨h'.falls, or_mono h.breaks h'.breaks, or_mono h.continues h'.continues,
    append_mono h.jumps h'.jumps⟩

theorem Within.orElse (h : x.Within x') (h' : y.Within y') :
    (x.orElse y).Within (x'.orElse y') :=
  ⟨or_mono h.falls h'.falls, or_mono h.breaks h'.breaks, or_mono h.continues h'.continues,
    append_mono h.jumps h'.jumps⟩

theorem within_orElse_left (x y : Exits) : x.Within (x.orElse y) :=
  ⟨fun h => by simp [Exits.orElse, h], fun h => by simp [Exits.orElse, h],
    fun h => by simp [Exits.orElse, h], fun l h => List.mem_append_left _ h⟩

theorem within_orElse_right (x y : Exits) : y.Within (x.orElse y) :=
  ⟨fun h => by simp [Exits.orElse, h], fun h => by simp [Exits.orElse, h],
    fun h => by simp [Exits.orElse, h], fun l h => List.mem_append_right _ h⟩

theorem within_andThen_right (x y : Exits) : y.Within (x.andThen y) :=
  ⟨id, fun h => by simp [Exits.andThen, h], fun h => by simp [Exits.andThen, h],
    fun l h => List.mem_append_right _ h⟩

end Exits

/-! ## Monotony -/

section Mono

open Exits

variable {entered entered' : List String}

theorem stmtExits_mono {live live' : Bool} (h : live = true → live' = true) (s : Stmt) :
    (stmtExits live s).Within (stmtExits live' s) := by
  cases s with
  | goto label =>
    refine ⟨id, id, id, ?_⟩
    cases live with
    | false => simp [stmtExits]
    | true => rw [h rfl]; exact fun _ => id
  | leave => exact ⟨id, h, id, fun _ => id⟩
  | next => exact ⟨id, id, h, fun _ => id⟩
  | assign | eval | print | skip | ret | raise => exact ⟨and_mono h id, id, id, fun _ => id⟩

/-- A node leaves in more ways with more labels entered and more code live. -/
def Mono (entered entered' : List String) (n : Node) : Prop :=
  ∀ {live live' : Bool}, (live = true → live' = true) →
    (exits entered live n).Within (exits entered' live' n)

theorem exits?_mono {e : Option Node} (he : ∀ n ∈ e, Mono entered entered' n) {live live' : Bool}
    (h : live = true → live' = true) :
    (exits? entered live e).Within (exits? entered' live' e) := by
  cases e with
  | none => exact ⟨h, id, id, fun _ => id⟩
  | some n => exact he n rfl h

theorem exitsAll_mono {ns : List Node} (hns : ∀ n ∈ ns, Mono entered entered' n)
    {live live' : Bool} (h : live = true → live' = true) :
    (exitsAll entered live ns).Within (exitsAll entered' live' ns) := by
  induction ns generalizing live live' with
  | nil => exact ⟨h, id, id, fun _ => id⟩
  | cons n ns ih =>
    simp only [List.mem_cons, forall_eq_or_imp] at hns
    have hn := hns.1 h
    exact hn.andThen (ih hns.2 hn.falls)

theorem exitsArms_mono {arms : List Arm} (ha : ∀ a ∈ arms, Mono entered entered' a.body)
    {live live' : Bool} (h : live = true → live' = true) :
    (exitsArms entered live arms).Within (exitsArms entered' live' arms) := by
  induction arms with
  | nil => exact .refl _
  | cons a arms ih =>
    obtain ⟨case, body, range⟩ := a
    simp only [List.mem_cons, forall_eq_or_imp] at ha
    exact (ha.1 h).orElse (ih ha.2)

theorem exitsHandlers_mono {handlers : List Handler}
    (hh : ∀ a ∈ handlers, Mono entered entered' a.body) {live live' : Bool}
    (h : live = true → live' = true) :
    (exitsHandlers entered live handlers).Within (exitsHandlers entered' live' handlers) := by
  induction handlers with
  | nil => exact .refl _
  | cons a handlers ih =>
    obtain ⟨binding, body, range⟩ := a
    simp only [List.mem_cons, forall_eq_or_imp] at hh
    exact (hh.1 h).orElse (ih hh.2)

theorem bodyLive_mono (test : TestTime) (c : Expr) {start start' : Bool}
    (h : start = true → start' = true) :
    bodyLive test c start = true → bodyLive test c start' = true := by
  cases test with
  | before => exact and_mono h id
  | after => exact h

theorem updateLive_mono {body body' : Exits} (h : body.Within body') :
    updateLive body = true → updateLive body' = true :=
  or_mono h.falls h.continues

theorem headerLive_mono (test : TestTime) {start start' : Bool} {update update' : Exits}
    (h : start = true → start' = true) (hu : update.Within update') :
    headerLive test start update = true → headerLive test start' update' = true := by
  cases test with
  | before => exact h
  | after => exact hu.falls

/-- **With more labels entered and more code live, control leaves in more ways.** -/
theorem exits_mono (hentered : ∀ l ∈ entered, l ∈ entered') (n : Node) :
    Mono entered entered' n := by
  induction n using Node.induct with
  | stmt s range =>
    intro live live' h
    exact stmtExits_mono h s
  | seq ns ih =>
    intro live live' h
    exact exitsAll_mono ih h
  | branch c t e range iht ihe =>
    intro live live' h
    exact (iht (and_mono h id)).orElse (exits?_mono ihe (and_mono h id))
  | loop test i c u b range ihi ihu ihb =>
    intro live live' h
    have start := exits?_mono ihi h
    have body := ihb (bodyLive_mono test c start.falls)
    have update := exits?_mono ihu (updateLive_mono body)
    refine ⟨?_, start.breaks, start.continues,
      append_mono (append_mono start.jumps body.jumps) update.jumps⟩
    exact or_mono (or_mono (and_mono (headerLive_mono test start.falls update) id) body.breaks)
      update.breaks
  | switch value arms range ih =>
    intro live live' h
    have inside := exitsArms_mono ih h
    exact ⟨or_mono (or_mono (and_mono h id) inside.falls) inside.breaks, id, inside.continues,
      inside.jumps⟩
  | attempt b handlers f range ihb ihh ihf =>
    intro live live' h
    have inside := (ihb h).orElse (exitsHandlers_mono ihh h)
    have cleanup := exits?_mono ihf h
    have both := inside.andThen cleanup
    exact ⟨and_mono inside.falls (or_mono id cleanup.falls), both.breaks, both.continues,
      both.jumps⟩
  | guarded kind resource b range ihb =>
    intro live live' h
    exact ihb h
  | label name range =>
    intro live live' h
    refine ⟨or_mono h ?_, id, id, fun _ => id⟩
    simp only [List.contains_iff_mem]
    exact hentered name
  | nested | probe | acquire =>
    intro live live' h
    exact ⟨h, id, id, fun _ => id⟩

end Mono

/-! ## Jumps name labels of the unit -/

/-- The jumps of a tree name labels around it or inside it. -/
def JumpsNamed (entered around : List String) (n : Node) : Prop :=
  ∀ live, ∀ l ∈ (exits entered live n).jumps, l ∈ around ∨ l ∈ labels n

section JumpsNamed

variable {entered around : List String} {l : String}

theorem exits?_named {e : Option Node} (h : ∀ n ∈ e, JumpsNamed entered around n) {live : Bool}
    (hl : l ∈ (exits? entered live e).jumps) : l ∈ around ∨ l ∈ labels? e := by
  cases e with
  | none => cases hl
  | some n => exact h n rfl live l hl

theorem exitsAll_named {ns : List Node} (h : ∀ n ∈ ns, JumpsNamed entered around n) {live : Bool}
    (hl : l ∈ (exitsAll entered live ns).jumps) : l ∈ around ∨ l ∈ labelsAll ns := by
  induction ns generalizing live with
  | nil => cases hl
  | cons n ns ih =>
    simp only [List.mem_cons, forall_eq_or_imp] at h
    simp only [labelsAll, List.mem_append]
    rcases List.mem_append.1 hl with hl | hl
    · exact (h.1 live l hl).imp id .inl
    · exact (ih h.2 hl).imp id .inr

theorem exitsArms_named {arms : List Arm} (h : ∀ a ∈ arms, JumpsNamed entered around a.body)
    {live : Bool} (hl : l ∈ (exitsArms entered live arms).jumps) :
    l ∈ around ∨ l ∈ labelsArms arms := by
  induction arms with
  | nil => cases hl
  | cons a arms ih =>
    obtain ⟨case, body, range⟩ := a
    simp only [List.mem_cons, forall_eq_or_imp] at h
    simp only [labelsArms, List.mem_append]
    rcases List.mem_append.1 hl with hl | hl
    · exact (h.1 _ l hl).imp id .inl
    · exact (ih h.2 hl).imp id .inr

theorem exitsHandlers_named {handlers : List Handler}
    (h : ∀ a ∈ handlers, JumpsNamed entered around a.body) {live : Bool}
    (hl : l ∈ (exitsHandlers entered live handlers).jumps) :
    l ∈ around ∨ l ∈ labelsHandlers handlers := by
  induction handlers with
  | nil => cases hl
  | cons a handlers ih =>
    obtain ⟨binding, body, range⟩ := a
    simp only [List.mem_cons, forall_eq_or_imp] at h
    simp only [labelsHandlers, List.mem_append]
    rcases List.mem_append.1 hl with hl | hl
    · exact (h.1 _ l hl).imp id .inl
    · exact (ih h.2 hl).imp id .inr

theorem stmt_named {ctx : Context} {a : Stmt} {range : SourceRange}
    (h : Confined ctx (.stmt a range)) : JumpsNamed entered ctx.labels (.stmt a range) := by
  intro live l hl
  cases h with
  | stmt ha =>
    cases a with
    | goto label =>
      have hlabel : l = label := by
        cases live with
        | false => cases hl
        | true => exact List.mem_singleton.1 hl
      rw [hlabel]
      exact .inl ha
    | assign | eval | print | skip | leave | next | ret | raise => cases hl

/-- **The jumps of a confined tree name labels around it or inside it.** -/
theorem jumps_of_confined (entered : List String) (n : Node) :
    ∀ {ctx : Context}, Confined ctx n → JumpsNamed entered ctx.labels n := by
  induction n using Node.induct with
  | stmt a range => exact fun h => stmt_named h
  | seq ns ih =>
    intro ctx h live l hl
    cases h with
    | seq hns =>
      simp only [labels, List.mem_append]
      rcases exitsAll_named (fun n hn => ih n hn (hns n hn)) hl with hl | hl
      · rcases List.mem_append.1 hl with hl | hl
        · exact .inl hl
        · exact .inr (.inl hl)
      · exact .inr (.inr hl)
  | branch c t e range iht ihe =>
    intro ctx h live l hl
    cases h with
    | branch ht he =>
      simp only [labels, List.mem_append]
      rcases List.mem_append.1 hl with hl | hl
      · exact (iht ht _ l hl).imp id .inl
      · exact (exits?_named (fun n hn => ihe n hn (he n hn)) hl).imp id .inr
  | loop test i c u b range ihi ihu ihb =>
    intro ctx h live l hl
    cases h with
    | loop hi hu hb =>
      simp only [labels, List.mem_append]
      simp only [exits, List.mem_append] at hl
      rcases hl with (hl | hl) | hl
      · exact (exits?_named (fun n hn => ihi n hn (hi n hn)) hl).imp id (.inl ∘ .inl)
      · exact (ihb hb _ l hl).imp id (.inl ∘ .inr)
      · -- The labels around a loop's update are those around the loop.
        have update : l ∈ ctx.inLoop.labels ∨ l ∈ labels? u :=
          exits?_named (fun n hn => ihu n hn (hu n hn)) hl
        exact update.imp id .inr
  | switch value arms range ih =>
    intro ctx h live l hl
    cases h with
    | switch ha =>
      have inArms : l ∈ ctx.inSwitch.labels ∨ l ∈ labelsArms arms :=
        exitsArms_named (fun a hmem => ih a hmem (ha a hmem)) hl
      exact inArms
  | attempt b handlers f range ihb ihh ihf =>
    intro ctx h live l hl
    cases h with
    | attempt hb hh hf =>
      simp only [labels, List.mem_append]
      simp only [exits, Exits.andThen, Exits.orElse, List.mem_append] at hl
      rcases hl with (hl | hl) | hl
      · exact (ihb hb _ l hl).imp id (.inl ∘ .inl)
      · exact (exitsHandlers_named (fun a hmem => ihh a hmem (hh a hmem)) hl).imp id
          (.inl ∘ .inr)
      · exact (exits?_named (fun n hn => ihf n hn (hf n hn)) hl).imp id .inr
  | guarded kind resource b range ihb =>
    intro ctx h live l hl
    cases h with
    | guarded hb => exact ihb hb live l hl
  | label | nested | probe | acquire => intro ctx h live l hl; cases hl

end JumpsNamed

/-! ## The repetition ends -/

/-- A condition that holds of more members of a list, and of one member more, counts more. -/
theorem countP_lt_countP {p q : String → Bool} {ls : List String}
    (h : ∀ l ∈ ls, p l = true → q l = true) {a : String} (ha : a ∈ ls) (hp : p a = false)
    (hq : q a = true) : ls.countP p < ls.countP q := by
  induction ls with
  | nil => cases ha
  | cons l ls ih =>
    simp only [List.mem_cons, forall_eq_or_imp] at h
    have hle := List.countP_mono_left h.2
    rw [List.countP_cons, List.countP_cons]
    rcases List.mem_cons.1 ha with rfl | ha
    · simp only [hp, hq, if_true, Bool.false_eq_true, if_false]
      omega
    · have hlt := ih h.2 ha
      by_cases hpl : p l = true
      · simp only [hpl, h.1 hpl, if_true]
        omega
      · rw [if_neg hpl]
        omega

/-- The repetition that starts from some labels, walk by walk: each walk starts from labels of its
own, and what it reaches is where the next one starts.  A walk that reaches just the labels it
starts from is the last. -/
inductive Repeats (root : Node) : List String → List (List String) → Prop
  | last {entered : List String} (h : sameLabels (reached root entered) entered = true) :
    Repeats root entered [entered]
  | next {entered : List String} {starts : List (List String)}
    (h : sameLabels (reached root entered) entered = false)
    (rest : Repeats root (reached root entered) starts) : Repeats root entered (entered :: starts)

theorem sameLabels_iff {xs ys : List String} : sameLabels xs ys = true ↔ xs ⊆ ys ∧ ys ⊆ xs := by
  simp only [sameLabels, Bool.and_eq_true, List.all_eq_true, List.contains_iff_mem, List.subset_def]

/-- More labels entered make a walk reach more labels. -/
theorem reached_mono {root : Node} {entered entered' : List String} (h : entered ⊆ entered') :
    reached root entered ⊆ reached root entered' :=
  (exits_mono (fun _ hl => h hl) root (id : true = true → true = true)).jumps

/-- A walk that loses no label and is not the last one reaches a new label. -/
theorem exists_new_of_not_same {root : Node} {entered : List String}
    (hgrow : entered ⊆ reached root entered)
    (h : sameLabels (reached root entered) entered = false) :
    ∃ l ∈ reached root entered, l ∉ entered := by
  by_cases hsub : reached root entered ⊆ entered
  · rw [sameLabels_iff.2 ⟨hsub, hgrow⟩] at h
    cases h
  · simpa [List.subset_def] using hsub

/-- A repetition whose first walk loses no label, with a round for each label that is still missing
and one more, ends before its rounds do. -/
theorem settle_repeats {root : Node} (hroot : ∀ entered, reached root entered ⊆ labels root)
    (rounds : Nat) {entered : List String} (hgrow : entered ⊆ reached root entered)
    (hrounds : (labels root).length < rounds + (labels root).countP entered.contains) :
    ∃ starts, Repeats root entered starts ∧
      starts.getLast? = some (settle root rounds entered) ∧ starts.length ≤ rounds := by
  induction rounds generalizing entered with
  | zero =>
    have hle : (labels root).countP entered.contains ≤ (labels root).length :=
      List.countP_le_length
    omega
  | succ rounds ih =>
    cases hsame : sameLabels (reached root entered) entered with
    | true => exact ⟨[entered], .last hsame, by simp [settle, hsame], by simp⟩
    | false =>
      -- Something is new, and it is a label of the unit.
      obtain ⟨l, hl, hnew⟩ := exists_new_of_not_same hgrow hsame
      have hlt : (labels root).countP entered.contains <
          (labels root).countP (reached root entered).contains := by
        refine countP_lt_countP (fun l _ h => ?_) (hroot entered hl) (by simpa using hnew)
          (by simpa using hl)
        rw [List.contains_iff_mem] at h ⊢
        exact hgrow h
      obtain ⟨starts, hrest, hlast, hlength⟩ := ih (reached_mono hgrow) (by omega)
      refine ⟨entered :: starts, .next hsame hrest, ?_, Nat.succ_le_succ hlength⟩
      cases hrest <;> simpa [settle, hsame] using hlast

/-- Where the repetition ends, a walk reaches no other labels than it starts from. -/
theorem Repeats.closed {root : Node} {entered last : List String} {starts : List (List String)}
    (h : Repeats root entered starts) (hlast : starts.getLast? = some last) :
    reached root last ⊆ last := by
  induction h with
  | last hsame =>
    cases hlast
    exact (sameLabels_iff.1 hsame).1
  | next _ rest ih =>
    refine ih ?_
    cases rest <;> simpa using hlast

/-- **The repetition for a unit without defects ends**, after one walk more than the unit has
labels at the latest. -/
theorem enteredLabels_repeats {u : CodeUnit} (h : u.defects = []) :
    ∃ starts, Repeats u.root [] starts ∧ starts.getLast? = some (enteredLabels u.root) ∧
      starts.length ≤ (labels u.root).length + 1 := by
  refine settle_repeats (fun entered l hl => ?_) _ nofun (by omega)
  exact (jumps_of_confined entered u.root (CodeUnit.wellFormed h).2 true l hl).resolve_left nofun

/-- **The labels found are closed**: every live jump of the unit names one of them. -/
theorem enteredLabels_closed {u : CodeUnit} (h : u.defects = []) :
    ∀ l ∈ (exits (enteredLabels u.root) true u.root).jumps, l ∈ enteredLabels u.root :=
  let ⟨_, hrepeats, hlast, _⟩ := enteredLabels_repeats h
  hrepeats.closed hlast

end SpanCoverage.Analysis
