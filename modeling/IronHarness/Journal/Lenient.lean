import IronHarness.Journal.History
import IronHarness.Lib.JsonPrefix

/-!
# The lenient reader of the viewer

The viewer cuts a file with `str.splitlines`, which also cuts at the separators U+0085, U+2028 and U+2029 that the
writer leaves in its lines as they are.  A line with one of them is cut into parts that are no JSON objects, so the two
readers agree exactly when no event kept has a separator in one of its strings (`lenient_agrees_iff`).
-/

namespace IronHarness.Journal

open ByteText Rotation TextLines JsonText Runs

variable {F : Type} [JsonFloat F]

/-- A string or a key of the event contains a line separator beyond ASCII. -/
def Event.hasSeparator (e : Event F) : Bool := (Value.obj e.fields).anyChar isSeparator

/-! ### Lines -/

private theorem isSeparator_ascii (c : Char) (hc : c.toNat < 0x80) : isSeparator c = false := by
  rw [Bool.eq_false_iff]
  intro hsep
  simp only [isSeparator, Bool.or_eq_true, beq_iff_eq] at hsep
  rcases hsep with (rfl | rfl) | rfl <;> revert hc <;> decide

private theorem line_any (e : Event F) : e.line.any isSeparator = e.hasSeparator :=
  dumps_any isSeparator_ascii _

private theorem lenientLines_append (a b : List Line) :
    lenientLines (F := F) (a ++ b) =
      ((lenientLines a).1 ++ (lenientLines b).1, (lenientLines (F := F) a).2 + (lenientLines (F := F) b).2) := by
  induction a with
  | nil => simp [lenientLines]
  | cons l a ih =>
    rw [List.cons_append, lenientLines, lenientLines, ih]
    dsimp only
    split
    · rfl
    · split
      · rfl
      · simp only [Prod.mk.injEq, true_and]
        omega

private theorem lenientLines_lines (events : List (Event F)) :
    lenientLines (events.map Event.line) = (events.map Event.fields, 0) := by
  induction events with
  | nil => rfl
  | cons e events ih =>
    have hblank : isBlank e.line = false := by
      have h := isBlank_line e []
      rwa [List.append_nil] at h
    have hload : loads e.line = some (Value.obj e.fields) := by
      have h := loads_line e (List.forall_mem_nil _)
      rwa [List.append_nil] at h
    rw [List.map_cons, lenientLines, ih, hblank, hload]
    rfl

/-- A line cut at its first separator is skipped. -/
private theorem skipped_of_separator {e : Event F} (hsep : e.hasSeparator = true) (r : List Char) :
    0 < (lenientLines (F := F) (splitlines (e.line ++ r))).2 := by
  rw [← line_any, List.any_eq_true] at hsep
  -- the front of the line up to its first separator
  obtain ⟨front, sep, back, hline, hfront, hsep⟩ : ∃ front sep back, e.line = front ++ sep :: back ∧
      (∀ c ∈ front, isSeparator c = false) ∧ isSeparator sep = true := by
    obtain ⟨c, hc, hcsep⟩ := hsep
    generalize e.line = line at hc
    induction line with
    | nil => cases hc
    | cons d line ih =>
      cases hd : isSeparator d with
      | true =>
        refine ⟨[], d, line, rfl, ?_, hd⟩
        intro x hx
        cases hx
      | false =>
        have hc' : c ∈ line := by
          rcases List.mem_cons.1 hc with rfl | hc
          · rw [hd] at hcsep
            cases hcsep
          · exact hc
        obtain ⟨front, sep, back, rfl, hfront, hsep⟩ := ih hc'
        refine ⟨d :: front, sep, back, rfl, ?_, hsep⟩
        intro x hx
        rcases List.mem_cons.1 hx with rfl | hx
        · exact hd
        · exact hfront x hx
  have hplain : Plain e.line := dumps_no_control _
  have hplainFront : Plain front := by
    intro c hc
    exact hplain c (by rw [hline]; exact List.mem_append_left _ hc)
  -- it starts with the brace of the object, so it is neither blank nor a JSON text
  obtain ⟨t, ht⟩ : ∃ t, front = '{' :: t := by
    have hhead : e.line.head? = some '{' := by
      obtain ⟨fields, hnodup⟩ := e
      rcases fields with _ | ⟨⟨k, v⟩, fs⟩ <;> rfl
    rw [hline] at hhead
    cases front with
    | nil =>
      rw [List.nil_append, List.head?_cons, Option.some.injEq] at hhead
      rw [hhead] at hsep
      exact absurd hsep (by decide)
    | cons c t =>
      rw [List.cons_append, List.head?_cons, Option.some.injEq] at hhead
      exact ⟨t, by rw [hhead]⟩
  have hblank : isBlank front = false := by
    rw [isBlank, ht, List.all_cons, show isSpace '{' = false by decide, Bool.false_and]
  have hload : (loads front : Option (Value F)) = none := by
    refine loads_cut_obj e.nodup hline ?_ (List.cons_ne_nil _ _)
    rw [ht]
    exact List.cons_ne_nil _ _
  rw [hline, List.append_assoc, List.cons_append, splitlines_cut hplainFront hfront hsep, lenientLines, hblank, hload]
  exact Nat.succ_pos _

/-! ### Files -/

private theorem lenientText_eventBytes (events : List (Event F)) :
    lenientText (eventBytes events) = splitlines (join (events.map Event.line)) := by
  rw [lenientText, eventBytes, decodeReplace_encode, universal_join (plain_lines events)]

private theorem lenient_file (events : List (Event F)) (h : ∀ e ∈ events, e.hasSeparator = false) :
    lenientLines (lenientText (eventBytes events)) = (events.map Event.fields, 0) := by
  have hsep : ∀ l ∈ events.map Event.line, ∀ c ∈ l, isSeparator c = false := by
    intro l hl c hc
    obtain ⟨e, he, rfl⟩ := List.mem_map.1 hl
    have hnone := h e he
    rw [← line_any, List.any_eq_false] at hnone
    exact Bool.eq_false_iff.2 (hnone c hc)
  rw [lenientText_eventBytes, splitlines_join (plain_lines events) hsep, lenientLines_lines]

private theorem lenient_file_skips {events : List (Event F)}
    (h : (lenientLines (F := F) (lenientText (eventBytes events))).2 = 0) : ∀ e ∈ events, e.hasSeparator = false := by
  by_contra hsome
  simp only [not_forall, Bool.not_eq_false] at hsome
  obtain ⟨x, hx, hsep⟩ := hsome
  -- the events in front of the first one with a separator
  obtain ⟨before, e, after, rfl, hbefore, hsep⟩ : ∃ before e after, events = before ++ e :: after ∧
      (∀ x ∈ before, x.hasSeparator = false) ∧ e.hasSeparator = true := by
    clear h
    induction events with
    | nil => cases hx
    | cons y events ih =>
      cases hy : y.hasSeparator with
      | true =>
        refine ⟨[], y, events, rfl, ?_, hy⟩
        intro z hz
        cases hz
      | false =>
        have hx' : x ∈ events := by
          rcases List.mem_cons.1 hx with rfl | hx
          · rw [hy] at hsep
            cases hsep
          · exact hx
        obtain ⟨before, e, after, rfl, hbefore, hsep⟩ := ih hx'
        refine ⟨y :: before, e, after, rfl, ?_, hsep⟩
        intro z hz
        rcases List.mem_cons.1 hz with rfl | hz
        · exact hy
        · exact hbefore z hz
  have hseps : ∀ l ∈ before.map Event.line, ∀ c ∈ l, isSeparator c = false := by
    intro l hl c hc
    obtain ⟨x, hx, rfl⟩ := List.mem_map.1 hl
    have hnone := hbefore x hx
    rw [← line_any, List.any_eq_false] at hnone
    exact Bool.eq_false_iff.2 (hnone c hc)
  have hjoin : join ((before ++ e :: after).map Event.line) =
      join (before.map Event.line) ++ (e.line ++ '\n' :: join (after.map Event.line)) := by
    rw [List.map_append, join_append, List.map_cons]
    simp [join]
  rw [lenientText_eventBytes, hjoin, splitlines_join_append (plain_lines before) hseps, lenientLines_append] at h
  have hskip := skipped_of_separator hsep ('\n' :: join (after.map Event.line))
  dsimp only at h
  omega

/-! ### Chains -/

variable {cfg : Config} {w : World F} {s : Slots (List (Event F))} {lost : List (Event F)}

/-- A lenient reading of events returns them and skips nothing where they have no separator, and skips something
where they have one. -/
private def Agrees (events : List (Event F)) (r : List (List (String × Value F)) × Nat) : Prop :=
  ((∀ e ∈ events, e.hasSeparator = false) → r = (events.map Event.fields, 0)) ∧
    (r.2 = 0 → ∀ e ∈ events, e.hasSeparator = false)

private theorem agrees_file (events : List (Event F)) : Agrees events (lenientLines (lenientText (eventBytes events))) :=
  ⟨lenient_file events, lenient_file_skips⟩

omit [JsonFloat F] in
private theorem Agrees.append {a b : List (Event F)} {r r' : List (List (String × Value F)) × Nat}
    (ha : Agrees a r) (hb : Agrees b r') : Agrees (a ++ b) (r.1 ++ r'.1, r.2 + r'.2) := by
  constructor
  · intro hall
    rw [ha.1 fun e he => hall e (List.mem_append_left _ he), hb.1 fun e he => hall e (List.mem_append_right _ he),
      List.map_append]
    rfl
  · intro hzero e he
    dsimp only at hzero
    rcases List.mem_append.1 he with he | he
    · exact ha.2 (by omega) e he
    · exact hb.2 (by omega) e he

private theorem readLenient_cons {d : Dir} {file : String} {files : List String} {events : List (Event F)}
    {r : List (List (String × Value F)) × Nat} (hlook : d.lookup file = some (eventBytes events))
    (hrest : readLenient d files = .ok r) :
    readLenient d (file :: files) = .ok ((lenientLines (lenientText (eventBytes events))).1 ++ r.1,
      (lenientLines (F := F) (lenientText (eventBytes events))).2 + r.2) := by
  rw [readLenient, hlook, hrest]
  rfl

private theorem readLenient_nil (d : Dir) : readLenient (F := F) d [] = .ok ([], 0) := rfl

private theorem readLenient_slotFiles {name : String} {d : Dir} (hd : slots name d = mapSlots eventBytes s) {k : Nat}
    (hk : ∀ i, 1 ≤ i → i ≤ k → s i ≠ none) :
    ∃ r, readLenient (F := F) d (slotFiles d name k) = .ok r ∧ Agrees (upTo id s k) r := by
  have hlook : ∀ i, d.lookup (fileName name i) = (s i).map eventBytes := fun i => congrFun hd i
  induction k with
  | zero =>
    have hlive := hlook 0
    rw [fileName_zero] at hlive
    cases hs : s 0 with
    | none =>
      rw [hs] at hlive
      refine ⟨([], 0), ?_, ?_⟩
      · rw [slotFiles, hlive]
        rfl
      · rw [upTo, items_none hs]
        exact ⟨fun _ => rfl, fun _ e he => by cases he⟩
    | some es =>
      rw [hs, Option.map_some] at hlive
      have hitems : upTo id s 0 = es ++ [] := by
        rw [upTo, items, hs, List.append_nil]
        rfl
      have hfiles : slotFiles d name 0 = [name] := by
        rw [slotFiles, hlive]
        rfl
      have hread := readLenient_cons (F := F) (r := ([], 0)) hlive (readLenient_nil d)
      rw [hfiles, hitems]
      exact ⟨_, hread, (agrees_file es).append ⟨fun _ => rfl, fun _ e he => by cases he⟩⟩
  | succ k ih =>
    obtain ⟨r, hread, hagrees⟩ := ih fun i hi hik => hk i hi (by omega)
    obtain ⟨es, hes⟩ := Option.ne_none_iff_exists'.1 (hk (k + 1) (by omega) (Nat.le_refl _))
    have hpart := hlook (k + 1)
    rw [fileName_succ, hes, Option.map_some] at hpart
    have hitems : upTo id s (k + 1) = es ++ upTo id s k := by
      rw [upTo, items, hes]
      rfl
    refine ⟨_, readLenient_cons hpart hread, ?_⟩
    rw [hitems]
    exact (agrees_file es).append hagrees

/-- On a chain with a live file the lenient reader returns what the strict one does and skips nothing exactly when no
event has a separator. -/
private theorem Chain.lenient_iff (h : Chain cfg w s lost) (hlive : w.dir.lookup cfg.path ≠ none) :
    loadEventsLenient w.dir cfg.path = .ok ((upTo id s (max 1 cfg.maxFiles)).map Event.fields, 0) ↔
      ∀ e ∈ upTo id s (max 1 cfg.maxFiles), e.hasSeparator = false := by
  have hheight := height_chainHeight w.dir cfg.path
  have hheight' : Height s (chainHeight w.dir cfg.path) := h.height
  have hk : ∀ i, 1 ≤ i → i ≤ chainHeight w.dir cfg.path → s i ≠ none := hheight'.1
  obtain ⟨r, hread, hagrees⟩ := readLenient_slotFiles h.dir hk
  rw [h.kept.tidy.upTo_height hheight' h.kept.items_above] at hagrees
  have hfiles : (chainFiles w.dir cfg.path).isEmpty = false := by
    rw [chainFiles, if_pos (Option.isSome_iff_ne_none.2 hlive)]
    simp
  rw [loadEventsLenient, hfiles, if_neg Bool.false_ne_true, chainFiles_eq hheight, hread]
  constructor
  · intro heq
    have hr := Except.ok.inj heq
    exact hagrees.2 (by rw [hr])
  · intro hall
    rw [hagrees.1 hall]

/-! ### Runs -/

/-- The live file stays: a call that rotates writes a new one. -/
private theorem live_step {w' : World F} {a : Act F} (h : Chain cfg w s lost) (ha : a.noFault)
    (hlive : w.dir.lookup cfg.path ≠ none) (hstep : Journal.step cfg w a = some w') :
    w'.dir.lookup cfg.path ≠ none := by
  have hslot : ∀ d : Dir, slots cfg.path d 0 = d.lookup cfg.path := fun d => rfl
  cases a with
  | openWriter actor =>
    obtain rfl := Option.some.inj hstep
    have htouch := slots_touch_live cfg.path (touch (lockName cfg.path) w.dir)
    have h0 := congrFun htouch 0
    rw [hslot, push, Function.update_self] at h0
    dsimp only [openJournal]
    rw [h0]
    exact Option.some_ne_none _
  | close i =>
    obtain ⟨j, hj, rfl⟩ := Option.map_eq_some_iff.1 hstep
    exact hlive
  | call i c fault =>
    obtain rfl : fault = .none := ha
    obtain ⟨j, hj, rfl⟩ := Option.map_eq_some_iff.1 hstep
    obtain ⟨hpath, -, -⟩ := h.writers j (List.mem_of_getElem? hj)
    dsimp only
    by_cases hclosed : j.closed = true
    · have hcall : j.call c .none w.dir = (.closed, j, w.dir) := by
        rw [JsonlJournal.call, if_pos hclosed]
      rw [hcall]
      exact hlive
    · have hcases := appendLocked_cases j (eventBytes (j.records c)) .none w.dir
      cases hrun : appendLocked j (eventBytes (j.records c)) .none w.dir with
      | mk ok d' =>
        rw [hrun] at hcases
        rw [call_eq hclosed hrun]
        cases hcases with
        | done _ _ _ hslots =>
          rw [hpath] at hslots
          have h0 := congrFun hslots 0
          rw [hslot, push, Function.update_self] at h0
          dsimp only
          rw [h0]
          exact Option.some_ne_none _

/-- After any calls without an I/O error, of any number of writers, the two readers agree exactly when no event kept
has a line separator in one of its strings or keys. -/
theorem lenient_agrees_iff (cfg : Config) (actor : String) {acts : List (Act F)} (hio : ∀ a ∈ acts, a.noFault)
    (hrun : Runs.run (Journal.step cfg) World.empty (.openWriter actor :: acts) = some w) :
    ∃ lost kept, w.log = lost ++ kept ∧ readEventsChain w.dir cfg.path = .ok (kept.map Event.fields) ∧
      (loadEventsLenient w.dir cfg.path = .ok (kept.map Event.fields, 0) ↔
        ∀ e ∈ kept, e.hasSeparator = false) := by
  obtain ⟨w₀, hopen, hrest⟩ := run_cons_eq_some.1 hrun
  have hfirst : Clean (World.empty : World F) (.openWriter actor) := trivial
  obtain ⟨s₀, dropped₀, new₀, hchain₀, -⟩ := (chain_empty (F := F) cfg).step hfirst hopen
  have hlive₀ : w₀.dir.lookup cfg.path ≠ none := by
    obtain rfl := Option.some.inj hopen
    have htouch := slots_touch_live cfg.path (touch (lockName cfg.path) (World.empty (F := F)).dir)
    have h0 := congrFun htouch 0
    rw [slots, fileName_zero, push, Function.update_self] at h0
    dsimp only [openJournal]
    rw [h0]
    exact Option.some_ne_none _
  have hinv : (∃ s lost, Chain cfg w s lost) ∧ w.dir.lookup cfg.path ≠ none := by
    refine Along.invariant (P := fun _ a => Act.noFault a)
      (I := fun w => (∃ s lost, Chain cfg w s lost) ∧ w.dir.lookup cfg.path ≠ none) ?_
      (Along.of_forall hio) hrest ⟨⟨s₀, _, hchain₀⟩, hlive₀⟩
    rintro w a w' ha hstep ⟨⟨s, lost, h⟩, hlive⟩
    obtain ⟨s', dropped, new, h', -⟩ := h.step (clean_of_noFault ha) hstep
    exact ⟨⟨s', _, h'⟩, live_step h ha hlive hstep⟩
  obtain ⟨⟨s, lost, h⟩, hlive⟩ := hinv
  exact ⟨lost, _, h.log, h.read, h.lenient_iff hlive⟩

/-- A call whose payload has a line separator (U+2028) in a string. -/
def separated : Call LitFloat :=
  { tick with data := ⟨[("text", .str "a\u2028b")], List.nodup_singleton _, trivial, trivial⟩ }

/-- The strict reader returns the event, the lenient one skips both parts of its line. -/
theorem lenient_skips_separated :
    (Runs.run (Journal.step ⟨"j", 1000, 2⟩) (World.empty (F := LitFloat))
        [.openWriter "t", .call 0 separated .none]).map
          (fun w => (readEventsChain (F := LitFloat) w.dir "j", loadEventsLenient (F := LitFloat) w.dir "j")) =
      some (.ok [(record separated.ts 1 "t" "tick" separated.data).fields], .ok ([], 2)) := rfl

/-- A call without one is read alike. -/
theorem lenient_agrees_tick :
    ∃ w : World LitFloat, Runs.run (Journal.step ⟨"j", 1000, 2⟩) World.empty
        [.openWriter "t", .call 0 tick .none] = some w ∧
      ∃ lost kept, w.log = lost ++ kept ∧ readEventsChain w.dir "j" = .ok (kept.map Event.fields) ∧
        (loadEventsLenient w.dir "j" = .ok (kept.map Event.fields, 0) ↔ ∀ e ∈ kept, e.hasSeparator = false) := by
  have hio : ∀ a ∈ [Act.call 0 tick .none], a.noFault := by
    intro a ha
    obtain rfl := List.mem_singleton.1 ha
    rfl
  have hsome : (Runs.run (Journal.step ⟨"j", 1000, 2⟩) (World.empty (F := LitFloat))
      [.openWriter "t", .call 0 tick .none]).isSome = true := rfl
  obtain ⟨w, hw⟩ := Option.isSome_iff_exists.1 hsome
  exact ⟨w, hw, lenient_agrees_iff ⟨"j", 1000, 2⟩ "t" hio hw⟩

end IronHarness.Journal
