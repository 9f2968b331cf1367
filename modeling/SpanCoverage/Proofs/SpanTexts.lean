import SpanCoverage.Proofs.Spellings
import SpanCoverage.Span.Spelling

/-!
# Texts of span tables

The reader of span tables accepts just the spellings of numbered lists.  A list may be spelled with
the fields of its spans and ranges in any order, with other fields between them, as lists of values,
with white space and escapes anywhere; all spellings of a list are read alike, and which of them it
is never shows.  What decides is the order of the spans: a list that is not numbered from zero up is
refused for its first span out of place.

The main results are:

* `Json.record?_eq_some_iff` — the documents that are read as a record of some fields.
* `Json.spans?_eq_some_iff` — the documents that are read as a list of spans.
* `SpanTable.misplaced_cases` — the first span out of place is found.
* `SpanTable.read_spellings` — what is read from each spelling, and that nothing else is read.
-/

namespace SpanCoverage

namespace Json

/-! ## Texts, numbers and kinds -/

theorem text?_eq_some_iff {j : Json} {text : String} : text? j = some text ↔ IsText text j := by
  cases j with
  | str literal =>
    simp only [text?, IsText, Option.map_eq_some_iff]
    constructor
    · rintro ⟨cs, hcs, rfl⟩
      simpa using hcs
    · intro h
      exact ⟨_, h, String.ofList_toList⟩
  | null | bool _ | num _ | arr _ | obj _ => simp [text?, IsText]

theorem word?_eq_some_iff {j : Json} {n : Nat} : word? j = some n ↔ IsWord n j := by
  cases j with
  | num digits =>
    simp only [word?, IsWord, IsDigits, Option.filter_eq_some_iff, Text.readDecimal?_eq_some_iff,
      decide_eq_true_eq, and_assoc]
  | null | bool _ | str _ | arr _ | obj _ => simp [word?, IsWord]

theorem IsWord.lt {j : Json} {n : Nat} (h : IsWord n j) : n < UInt32.size := by
  cases j with
  | num digits => exact h.2.2
  | null | bool _ | str _ | arr _ | obj _ => exact h.elim

theorem bind_ofLongName?_eq_some_iff {j : Json} {kind : SpanKind} :
    (text? j).bind SpanKind.ofLongName? = some kind ↔ IsText kind.longName j := by
  rw [Option.bind_eq_some_iff]
  constructor
  · rintro ⟨name, hname, hkind⟩
    have hlong := List.find?_some hkind
    rw [beq_iff_eq.1 hlong]
    exact text?_eq_some_iff.1 hname
  · intro h
    exact ⟨_, text?_eq_some_iff.2 h, SpanKind.ofLongName?_longName kind⟩

theorem spanKind?_eq_some_iff {j : Json} {kind : SpanKind} :
    spanKind? j = some kind ↔ IsKind kind j := by
  unfold spanKind? IsKind
  split
  · rename_i key
    rw [bind_ofLongName?_eq_some_iff]
    constructor
    · exact fun h => .inr ⟨key, rfl, h⟩
    · rintro (h | ⟨_, heq, h⟩)
      · exact h.elim
      · cases heq
        exact h
  · rename_i hkey
    rw [bind_ofLongName?_eq_some_iff]
    constructor
    · exact .inl
    · rintro (h | ⟨key, rfl, _⟩)
      · exact h
      · exact (hkey key rfl).elim

/-! ## Records -/

theorem mapM_eq_some_iff {α β : Type} {f : α → Option β} {xs : List α} {ys : List β} :
    xs.mapM f = some ys ↔ List.Forall₂ (fun x y => f x = some y) xs ys := by
  induction xs generalizing ys with
  | nil => cases ys <;> simp
  | cons x xs ih =>
    rw [List.mapM_cons, Option.bind_eq_bind, Option.bind_eq_some_iff]
    constructor
    · rintro ⟨y, hy, h⟩
      obtain ⟨ys', hys, heq⟩ := Option.bind_eq_some_iff.1 h
      cases heq
      exact .cons hy (ih.1 hys)
    · rintro (_ | ⟨hy, hys⟩)
      exact ⟨_, hy, by simp [ih.2 hys]⟩

/-- In a list of named values, each of some fields stands alone under its name exactly if the list
is these fields and others, in any order. -/
theorem filter_eq_singleton_iff {fields named : List (String × Json)}
    (h : (fields.map Prod.fst).Nodup) :
    (∀ field ∈ fields, named.filter (·.1 == field.1) = [field]) ↔
      ∃ extra, named.Perm (fields ++ extra) ∧
        ∀ field ∈ extra, field.1 ∉ fields.map Prod.fst := by
  induction fields with
  | nil => simpa using ⟨named, List.Perm.refl named⟩
  | cons field fields ih =>
    obtain ⟨hnotin, hnodup⟩ := List.nodup_cons.1 h
    have hnone : fields.filter (·.1 == field.1) = [] := by
      refine List.filter_eq_nil_iff.2 fun other hother heq => hnotin ?_
      rw [← beq_iff_eq.1 heq]
      exact List.mem_map_of_mem hother
    rw [List.forall_mem_cons, ih hnodup]
    constructor
    · rintro ⟨hfield, extra, hperm, hextra⟩
      -- among the others stands the field itself, once
      have honce : extra.filter (·.1 == field.1) = [field] := by
        have hfiltered := hperm.filter (·.1 == field.1)
        rw [hfield, List.filter_append, hnone, List.nil_append] at hfiltered
        exact List.perm_singleton.1 hfiltered.symm
      have hsplit := List.filter_append_perm (·.1 == field.1) extra
      rw [honce, List.singleton_append] at hsplit
      refine ⟨_, hperm.trans ((hsplit.symm.append_left fields).trans List.perm_middle), ?_⟩
      intro other hother
      obtain ⟨hmem, hne⟩ := List.mem_filter.1 hother
      have hne' : other.1 ≠ field.1 := by simpa using hne
      simpa [hne'] using hextra other hmem
    · rintro ⟨extra, hperm, hextra⟩
      refine ⟨?_, field :: extra, hperm.trans List.perm_middle.symm, ?_⟩
      · have hothers : extra.filter (·.1 == field.1) = [] := by
          refine List.filter_eq_nil_iff.2 fun other hother heq => hextra other hother ?_
          rw [beq_iff_eq.1 heq]
          exact List.mem_cons_self
        have hfiltered := hperm.filter (·.1 == field.1)
        simp only [List.filter_append, List.filter_cons, BEq.rfl, if_true, hnone, hothers,
          List.append_nil] at hfiltered
        exact List.perm_singleton.1 hfiltered
      · rw [List.forall_mem_cons]
        exact ⟨hnotin, fun other hother hmem => hextra other hother (List.mem_cons_of_mem _ hmem)⟩

theorem fields?_eq_some_iff {fields : List (String × Json)} {members : List (List Char × Json)}
    (h : (fields.map Prod.fst).Nodup) :
    fields? (fields.map Prod.fst) members = some (fields.map Prod.snd) ↔
      ∃ named extra, HasKeys members named ∧ named.Perm (fields ++ extra) ∧
        ∀ field ∈ extra, field.1 ∉ fields.map Prod.fst := by
  have hmember (member : List Char × Json) (field : String × Json) :
      (text? (.str member.1)).map (fun key => (key, member.2)) = some field ↔
        IsText field.1 (.str member.1) ∧ member.2 = field.2 := by
    simp only [Option.map_eq_some_iff, text?_eq_some_iff]
    constructor
    · rintro ⟨key, hkey, rfl⟩
      exact ⟨hkey, rfl⟩
    · exact fun ⟨hkey, hvalue⟩ => ⟨field.1, hkey, Prod.ext rfl hvalue⟩
  unfold fields?
  rw [Option.bind_eq_bind, Option.bind_eq_some_iff]
  simp only [mapM_eq_some_iff, List.forall₂_map_left_iff, List.forall₂_map_right_iff,
    List.forall₂_same, hmember]
  refine exists_congr fun named => ?_
  rw [exists_and_left, ← filter_eq_singleton_iff h]
  refine and_congr_right fun _ => forall₂_congr fun field _ => ?_
  constructor
  · intro hvalue
    split at hvalue
    · rename_i key value hone
      have hkey : key = field.1 := by
        have hmem := hone ▸ List.mem_singleton_self (key, value)
        exact beq_iff_eq.1 (List.mem_filter.1 hmem).2
      cases hvalue
      rw [hone, hkey]
    · cases hvalue
  · intro hone
    rw [hone]

/-- A record is read exactly if it holds the fields. -/
theorem record?_eq_some_iff {j : Json} (fields : List (String × Json))
    (h : (fields.map Prod.fst).Nodup) :
    record? (fields.map Prod.fst) j = some (fields.map Prod.snd) ↔ IsRecord fields j := by
  cases j with
  | arr items =>
    simp only [record?, List.length_map]
    constructor
    · intro hitems
      split at hitems
      · cases hitems
        exact .list
      · cases hitems
    · rintro ⟨⟩
      rw [List.length_map, if_pos rfl]
  | obj members =>
    rw [record?, fields?_eq_some_iff h]
    constructor
    · exact fun ⟨_, _, hkeys, horder, hextra⟩ => .object hkeys horder hextra
    · rintro ⟨⟩
      exact ⟨_, _, ‹_›, ‹_›, ‹_›⟩
  | null | bool _ | num _ | str _ => exact ⟨nofun, nofun⟩

theorem sourceRange?_eq_some_iff {j : Json} {range : SourceRange} :
    sourceRange? j = some range ↔ IsRange range j := by
  have hfields (start stop : Json) : record? ["start", "end"] j = some [start, stop] ↔
      IsRecord [("start", start), ("end", stop)] j :=
    record?_eq_some_iff [("start", start), ("end", stop)]
      (show ["start", "end"].Nodup by decide)
  unfold sourceRange? IsRange
  rw [Option.bind_eq_bind, Option.bind_eq_some_iff]
  constructor
  · rintro ⟨values, hrecord, h⟩
    split at h
    · rename_i start stop
      obtain ⟨m, hm, h⟩ := Option.bind_eq_some_iff.1 h
      obtain ⟨n, hn, h⟩ := Option.bind_eq_some_iff.1 h
      cases h
      have hm' := word?_eq_some_iff.1 hm
      have hn' := word?_eq_some_iff.1 hn
      refine ⟨start, stop, (hfields ..).1 hrecord, ?_, ?_⟩
      · rwa [UInt32.toNat_ofNat_of_lt' hm'.lt]
      · rwa [UInt32.toNat_ofNat_of_lt' hn'.lt]
    · cases h
  · rintro ⟨start, stop, hrecord, hstart, hstop⟩
    refine ⟨[start, stop], (hfields ..).2 hrecord, ?_⟩
    simp [word?_eq_some_iff.2 hstart, word?_eq_some_iff.2 hstop]

theorem span?_eq_some_iff {j : Json} {s : Span} : span? j = some s ↔ IsSpan s j := by
  have hfields (index kind site range : Json) :
      record? ["index", "kind", "site", "range"] j = some [index, kind, site, range] ↔
        IsRecord [("index", index), ("kind", kind), ("site", site), ("range", range)] j :=
    record?_eq_some_iff [("index", index), ("kind", kind), ("site", site), ("range", range)]
      (show ["index", "kind", "site", "range"].Nodup by decide)
  unfold span? IsSpan
  rw [Option.bind_eq_bind, Option.bind_eq_some_iff]
  constructor
  · rintro ⟨values, hrecord, h⟩
    split at h
    · rename_i index kind site range
      obtain ⟨m, hm, h⟩ := Option.bind_eq_some_iff.1 h
      obtain ⟨k, hk, h⟩ := Option.bind_eq_some_iff.1 h
      obtain ⟨n, hn, h⟩ := Option.bind_eq_some_iff.1 h
      obtain ⟨r, hr, h⟩ := Option.bind_eq_some_iff.1 h
      cases h
      exact ⟨index, kind, site, range, (hfields ..).1 hrecord,
        word?_eq_some_iff.1 hm, spanKind?_eq_some_iff.1 hk, word?_eq_some_iff.1 hn,
        sourceRange?_eq_some_iff.1 hr⟩
    · cases h
  · rintro ⟨index, kind, site, range, hrecord, hindex, hkind, hsite, hrange⟩
    refine ⟨[index, kind, site, range], (hfields ..).2 hrecord, ?_⟩
    simp [word?_eq_some_iff.2 hindex, spanKind?_eq_some_iff.2 hkind, word?_eq_some_iff.2 hsite,
      sourceRange?_eq_some_iff.2 hrange]

/-- **A list of spans is read from a document exactly if the document spells it.** -/
theorem spans?_eq_some_iff {j : Json} {ss : List Span} : spans? j = some ss ↔ IsSpans ss j := by
  cases j with
  | arr items =>
    simp only [spans?, IsSpans, mapM_eq_some_iff, span?_eq_some_iff]
    constructor
    · exact fun h => ⟨items, rfl, h.flip⟩
    · rintro ⟨_, ⟨⟩, h⟩
      exact h.flip
  | null | bool _ | num _ | str _ | obj _ => simp [spans?, IsSpans]

/-! ## What is written -/

theorem isText_ofText (text : String) : IsText text (ofText text) := decodeLiteral_encodeText _

theorem isWord_ofNat {n : Nat} (h : n < UInt32.size) : IsWord n (ofNat n) :=
  ⟨isDigits_toDigits n, Nat.ofDigitChars_toDigits (by decide) (by decide), h⟩

/-- An object with some fields is a record of them. -/
theorem isRecord_ofMembers (fields : List (String × Json)) :
    IsRecord fields (ofMembers fields) := by
  have hkeys : HasKeys (fields.map fun m => (encodeText m.1.toList, m.2)) fields := by
    rw [HasKeys, List.forall₂_map_left_iff, List.forall₂_same]
    exact fun field _ => ⟨isText_ofText field.1, rfl⟩
  exact .object hkeys (.of_eq (List.append_nil fields).symm) (by simp)

theorem proper_toJson (s : Span) : s.toJson.Proper := by
  have hrange : s.range.toJson.Proper := proper_ofMembers (by simp)
  exact proper_ofMembers (by simp [hrange])

theorem isSpan_toJson {s : Span} (hindex : s.index < UInt32.size) (hsite : s.site < UInt32.size) :
    IsSpan s s.toJson := by
  exact ⟨_, _, _, _, isRecord_ofMembers _, isWord_ofNat hindex, .inl (isText_ofText _),
    isWord_ofNat hsite, _, _, isRecord_ofMembers _, isWord_ofNat s.range.start.toNat_lt,
    isWord_ofNat s.range.stop.toNat_lt⟩

end Json

namespace SpanTable

/-! ## Spans out of place -/

/-- A search for a span out of place finds none, or the first one. -/
theorem misplaced_cases (start : Nat) (ss : List Span) :
    (misplaced start ss = none ∧ ∀ p s, ss[p]? = some s → s.index = start + p) ∨
      ∃ p s, ss[p]? = some s ∧ s.index ≠ start + p ∧
        (∀ q < p, ∀ r, ss[q]? = some r → r.index = start + q) ∧
        misplaced start ss = some ⟨start + p, s.index⟩ := by
  induction ss generalizing start with
  | nil => exact .inl ⟨rfl, by simp⟩
  | cons s ss ih =>
    by_cases hs : s.index = start
    · have hstep : misplaced start (s :: ss) = misplaced (start + 1) ss := by
        simp [misplaced, hs]
      have hplace (q : Nat) : start + (q + 1) = start + 1 + q := by omega
      rw [hstep]
      rcases ih (start + 1) with ⟨hnone, hall⟩ | ⟨p, r, hr, hne, hbefore, hsome⟩
      · refine .inl ⟨hnone, ?_⟩
        rintro (_ | p) r hr
        · cases hr
          exact hs
        · rw [hplace]
          exact hall p r hr
      · refine .inr ⟨p + 1, r, hr, by rwa [hplace p], ?_, by rwa [hplace p]⟩
        rintro (_ | q) hq t ht
        · cases ht
          exact hs
        · rw [hplace]
          exact hbefore q (by omega) t ht
    · exact .inr ⟨0, s, rfl, hs, by simp, by simp [misplaced, hs]⟩

/-! ## Reading -/

theorem ofSpans_error_iff (ss : List Span) (e : SpanOrderError) :
    ofSpans ss = .error e ↔ misplaced 0 ss = some e := by
  unfold ofSpans
  split
  · rename_i hnone
    simp [hnone]
  · rename_i hsome
    simp [hsome]

/-- The list that a text spells decides what is read. -/
theorem read_eq_of_spells {ss : List Span} {cs : List Char} (h : Spells ss cs) :
    read cs =
      match ofSpans ss with
      | .error e => .error (.order e)
      | .ok table => .ok table := by
  obtain ⟨document, hdocument, hspans⟩ := h
  obtain ⟨rest, hread, hrest⟩ := Json.readFront?_iff_spells.2 hdocument
  have hlist := Json.spans?_eq_some_iff.2 hspans
  cases htable : ofSpans ss with
  | error e => simp [read, hread, hlist, htable]
  | ok table => simp [read, hread, hlist, htable, hrest]

theorem read_ok_iff {ss : List Span} {cs : List Char} (h : Spells ss cs) (t : SpanTable) :
    read cs = .ok t ↔ t.spans = ss := by
  rw [read_eq_of_spells h, ← ofSpans_ok_iff]
  cases ofSpans ss <;> simp

/-- A list out of order is refused for its first span out of place. -/
theorem read_of_misplaced {ss : List Span} {cs : List Char} (h : Spells ss cs)
    {e : SpanOrderError} (he : misplaced 0 ss = some e) : read cs = .error (.order e) := by
  rw [read_eq_of_spells h, (ofSpans_error_iff ss e).2 he]

/-- What is read as a table spells its list. -/
theorem spells_of_read {cs : List Char} {t : SpanTable} (h : read cs = .ok t) :
    Spells t.spans cs := by
  unfold read at h
  split at h
  · cases h
  · rename_i document rest hread
    split at h
    · cases h
    · rename_i ss hspans
      split at h
      · cases h
      · rename_i table htable
        split at h
        · rename_i hrest
          cases h
          have hdocument := Json.readFront?_iff_spells.1 ⟨rest, hread, List.isEmpty_iff.1 hrest⟩
          rw [(ofSpans_ok_iff ss t).1 htable]
          exact ⟨document, hdocument, Json.spans?_eq_some_iff.1 hspans⟩
        · cases h

/-- A list of 32-bit spans is spelled by the text that is written for it on one line. -/
theorem spells_compact {ss : List Span}
    (h : ∀ s ∈ ss, s.index < UInt32.size ∧ s.site < UInt32.size) :
    Spells ss (Json.arr (ss.map Span.toJson)).compact := by
  refine ⟨_, Json.spells_compact (Json.proper_arr ?_), _, rfl, ?_⟩
  · simpa using fun s _ => Json.proper_toJson s
  · rw [List.forall₂_map_right_iff, List.forall₂_same]
    intro s hs
    obtain ⟨hindex, hsite⟩ := h s hs
    exact Json.isSpan_toJson hindex hsite

/-- **A span table is read from every spelling of its list, and from no other text.**  For a list
of 32-bit spans one spelling is the text that is written on one line.  From any spelling of a list
a table is read exactly if each span has its position as its index, and then the table holds the
list; otherwise the first span out of place is named.  So what is written for a table reads back. -/
theorem read_spellings :
    (∀ ss : List Span, (∀ s ∈ ss, s.index < UInt32.size ∧ s.site < UInt32.size) →
      Spells ss (Json.arr (ss.map Span.toJson)).compact) ∧
    (∀ ss cs, Spells ss cs →
      ((∃ t, read cs = .ok t) ↔ ∀ (p : Nat) (s : Span), ss[p]? = some s → s.index = p) ∧
      (∀ t, read cs = .ok t → t.spans = ss) ∧
      ((¬∀ (p : Nat) (s : Span), ss[p]? = some s → s.index = p) →
        ∃ (p : Nat) (s : Span), ss[p]? = some s ∧ s.index ≠ p ∧
          (∀ q < p, ∀ r : Span, ss[q]? = some r → r.index = q) ∧
          read cs = .error (.order ⟨p, s.index⟩))) ∧
    (∀ t : SpanTable, (∀ s ∈ t.spans, s.index < UInt32.size ∧ s.site < UInt32.size) →
      read t.toJson.compact = .ok t) ∧
    ∀ cs t, read cs = .ok t → Spells t.spans cs := by
  refine ⟨fun ss h => spells_compact h, fun ss cs h => ?_,
    fun t h => (read_ok_iff (spells_compact h) t).2 rfl, fun cs t h => spells_of_read h⟩
  refine ⟨?_, fun t ht => (read_ok_iff h t).1 ht, ?_⟩
  all_goals
    rcases misplaced_cases 0 ss with ⟨hnone, hall⟩ | ⟨p, s, hs, hne, hbefore, hsome⟩
  case refine_1.inl =>
    have hindices := (misplaced_eq_none_iff 0 ss).1 hnone
    rw [← List.range_eq_range'] at hindices
    have hread := (read_ok_iff h ⟨ss, hindices⟩).2 rfl
    simp only [Nat.zero_add] at hall
    exact ⟨fun _ => hall, fun _ => ⟨_, hread⟩⟩
  case refine_1.inr =>
    have hread := read_of_misplaced h hsome
    simp only [Nat.zero_add] at hne
    refine ⟨?_, fun hall => absurd (hall p s hs) hne⟩
    rintro ⟨t, ht⟩
    rw [hread] at ht
    cases ht
  case refine_2.inl =>
    simp only [Nat.zero_add] at hall
    exact fun hnot => absurd hall hnot
  case refine_2.inr =>
    simp only [Nat.zero_add] at hne hbefore hsome
    exact fun _ => ⟨p, s, hs, hne, hbefore, read_of_misplaced h hsome⟩

/-- Two spans, the second out of place. -/
def twistedSpans : List Span := [⟨0, .label, 7, ⟨3, 9⟩⟩, ⟨5, .statement, 8, ⟨1, 2⟩⟩]

/-- The first span as an object with its fields in another order, an unknown one between them, an
escape in a name and its kind as a key; the second as a list of values, its range as an object. -/
def twistedText : List Char :=
  ("[\n \x7b\"site\": 7, \"old\": [1.5e3, null], \"r\\u0061nge\": [3, 9]," ++
    "\"kind\": \x7b\"label\": null\x7d, \"index\": 0\x7d ," ++
    " [5, \"statement\", 8, \x7b\"end\": 2, \"start\": 1\x7d]\t]\n").toList

theorem read_twistedText :
    Spells twistedSpans twistedText ∧ read twistedText = .error (.order ⟨1, 5⟩) ∧
      Spells twistedSpans (Json.arr (twistedSpans.map Span.toJson)).compact ∧
      read (ofPoints [⟨.entry, 0, ⟨3, 9⟩⟩]).toJson.compact =
        .ok (ofPoints [⟨.entry, 0, ⟨3, 9⟩⟩]) ∧
      Spells (ofPoints [⟨.entry, 0, ⟨3, 9⟩⟩]).spans
        (ofPoints [⟨.entry, 0, ⟨3, 9⟩⟩]).toJson.compact := by
  have hread : ((Json.readFront? twistedText).bind fun p =>
      if (Json.skipSpace p.2).isEmpty then p.1.spans? else none) = some twistedSpans := by
    decide +kernel
  obtain ⟨⟨document, rest⟩, hfront, hspans⟩ := Option.bind_eq_some_iff.1 hread
  dsimp only at hspans
  split at hspans
  · rename_i hrest
    have hspells : Spells twistedSpans twistedText :=
      ⟨document, Json.readFront?_iff_spells.1 ⟨rest, hfront, List.isEmpty_iff.1 hrest⟩,
        Json.spans?_eq_some_iff.1 hspans⟩
    have hplaced : ¬∀ (p : Nat) (s : Span), twistedSpans[p]? = some s → s.index = p :=
      fun h => absurd (h 1 _ rfl) (by decide)
    obtain ⟨p, s, hs, hne, _, herror⟩ := (read_spellings.2.1 _ _ hspells).2.2 hplaced
    have htable := read_spellings.2.2.1 (ofPoints [⟨.entry, 0, ⟨3, 9⟩⟩]) (by decide)
    refine ⟨hspells, ?_, read_spellings.1 _ (by decide), htable, read_spellings.2.2.2 _ _ htable⟩
    match p, hs with
    | 0, hs =>
      cases hs
      exact absurd rfl hne
    | 1, hs =>
      cases hs
      exact herror
  · cases hspans

end SpanTable

end SpanCoverage
