import IronHarness.Journal.History

/-!
# A rotation that fails midway

The renames of a rotation go from the oldest part down, so one that fails after a rename has left no part in front of
those it moved: `chain_files` stops there, and the parts moved are hidden (`keepsReadable_iff`), until a later rotation
removes the highest of them although fewer parts than the bound are there.  As long as no failing rotation hides an
event, no rotation that succeeds drops one below the bound (`rotation_below_bound`).
-/

namespace IronHarness.Journal

open ByteText Rotation TextLines JsonText Runs

variable {F : Type} [JsonFloat F]

/-- The events the reader finds before the rotation, without those of the oldest part if the first `k` operations
have removed it. -/
def retained (F : Type) [JsonFloat F] (name : String) (m k : Nat) (d : Dir) : List (List (String × Value F)) :=
  upTo fileEvents (if m ∈ (sources (slots name d) m).take k then Function.update (slots name d) m none
    else slots name d) (chainHeight d name)

/-- What was readable in `d` and is to be kept is returned, in its order, by `read_events_chain` on `d'`. -/
def KeepsReadable (F : Type) [JsonFloat F] (name : String) (m k : Nat) (d d' : Dir) : Prop :=
  ∀ events, readEventsChain (F := F) d name = .ok events →
    ∃ events', readEventsChain (F := F) d' name = .ok events' ∧ (retained F name m k d).Sublist events'

/-! ### The chain is a function of the slots -/

variable {name : String} {d d' : Dir} {s : Slots Bytes} {m k c : Nat} {events : List (List (String × Value F))}

private theorem read_congr (h : slots name d' = slots name d) :
    readEventsChain (F := F) d' name = .ok events ↔ readEventsChain d name = .ok events := by
  have hheight := height_chainHeight d name
  have hheight' : Height (slots name d') (chainHeight d name) := by
    rw [h]
    exact hheight
  rw [readEventsChain_ok_iff hheight, readEventsChain_ok_iff hheight', h]

private theorem fileItems_eq_nil {bs : Bytes} : fileItems F bs = [] ↔ parseContent (F := F) bs = .ok [] := by
  rw [fileItems]
  cases hparse : parseContent (F := F) bs with
  | error e => simp
  | ok es => simp

private theorem items_fileEvents_of_fileItems {i : Nat} (h : items (fileItems F) s i = []) :
    items (fileEvents (F := F)) s i = [] := by
  cases hs : s i with
  | none => exact items_none hs
  | some bs =>
    rw [items, hs, Option.elim_some] at h ⊢
    rw [fileEvents, fileItems_eq_nil.1 h]

private theorem items_fileItems_of_fileEvents {i : Nat} (hread : ∀ bs, s i = some bs → Readable F bs)
    (h : items (fileEvents (F := F)) s i = []) : items (fileItems F) s i = [] := by
  cases hs : s i with
  | none => exact items_none hs
  | some bs =>
    rw [items, hs, Option.elim_some] at h ⊢
    obtain ⟨es, hes⟩ := hread bs hs
    rw [fileEvents, hes] at h
    rw [fileItems, hes]
    dsimp only at h ⊢
    rw [h]
    rfl

/-! ### One failing rotation -/

/-- In a rotation that has moved parts down to `c`, the oldest part is gone. -/
private theorem retained_eq (hc : c ∈ (sources (slots name d) m).take k) :
    retained F name m k d = upTo fileEvents (Function.update (slots name d) m none) (chainHeight d name) := by
  rw [retained]
  by_cases hm : m ∈ (sources (slots name d) m).take k
  · rw [if_pos hm]
  · rw [if_neg hm]
    have hnone : slots name d m = none := by
      by_contra hsome
      obtain ⟨hc1, hcm, -⟩ := mem_sources.1 (List.mem_of_mem_take hc)
      obtain ⟨n, rfl⟩ : ∃ n, m = n + 1 := ⟨m - 1, by omega⟩
      have hsrc : sources (slots name d) (n + 1) = (n + 1) :: sources (slots name d) n := by
        rw [sources, if_pos (Option.isSome_iff_ne_none.2 hsome)]
      rw [hsrc] at hm hc
      cases k with
      | zero => cases hc
      | succ k => exact hm (by rw [List.take_succ_cons]; exact List.mem_cons_self)
    have hsame : Function.update (slots name d) m none = slots name d := by
      rw [← hnone]
      exact Function.update_eq_self m _
    rw [hsame]

/-- The parts below the first one moved are what the reader still finds. -/
private theorem height_shifted (hc1 : 1 ≤ c) (hch : c ≤ k) (hk : Height s k) : Height (shifted c m s) (c - 1) := by
  constructor
  · intro i hi hic
    rw [shifted_below (by omega)]
    exact hk.1 i hi (by omega)
  · rw [Nat.sub_add_cancel hc1]
    exact shifted_self

/-- Parts moved above the first missing one hide nothing. -/
private theorem keeps_above (hslots : slots name d' = shifted c m (slots name d))
    (hc : c ∈ (sources (slots name d) m).take k) (hlt : chainHeight d name < c) : KeepsReadable F name m k d d' := by
  have hheight := height_chainHeight d name
  obtain ⟨hc1, hcm, hcs⟩ := mem_sources.1 (List.mem_of_mem_take hc)
  have hcgap : c ≠ chainHeight d name + 1 := by
    rintro rfl
    exact hcs hheight.2
  have hbelow : ∀ i, i ≤ chainHeight d name + 1 → slots name d' i = slots name d i := by
    intro i hi
    rw [hslots, shifted_below (by omega)]
  have hheight' : Height (slots name d') (chainHeight d name) := by
    constructor
    · intro i hi hile
      rw [hbelow i (by omega)]
      exact hheight.1 i hi hile
    · rw [hbelow _ (Nat.le_refl _)]
      exact hheight.2
  have hupTo : upTo (fileEvents (F := F)) (Function.update (slots name d) m none) (chainHeight d name) =
      upTo fileEvents (slots name d') (chainHeight d name) := by
    refine upTo_congr ?_
    intro i hi
    rw [items, items, Function.update_of_ne (by omega), hbelow i (by omega)]
  intro events hread
  obtain ⟨hall, rfl⟩ := (readEventsChain_ok_iff hheight).1 hread
  refine ⟨_, (readEventsChain_ok_iff hheight').2 ⟨?_, rfl⟩, ?_⟩
  · intro i hi bs hbs
    rw [hbelow i (by omega)] at hbs
    exact hall i hi bs hbs
  · rw [retained_eq hc, hupTo]

/-- With part `c` of the chain moved, the reader finds what is below it. -/
private theorem read_below (hslots : slots name d' = shifted c m (slots name d)) (hc1 : 1 ≤ c) (hcm : c ≤ m)
    (hge : c ≤ chainHeight d name) (hread : readEventsChain (F := F) d name = .ok events) :
    readEventsChain d' name =
      .ok (upTo (fileEvents (F := F)) (Function.update (slots name d) m none) (c - 1)) := by
  have hheight := height_chainHeight d name
  have hheight' : Height (slots name d') (c - 1) := by
    rw [hslots]
    exact height_shifted hc1 hge hheight
  have hbelow : ∀ i, i ≤ c - 1 → slots name d' i = slots name d i := by
    intro i hi
    rw [hslots, shifted_below (by omega)]
  have hupTo : upTo (fileEvents (F := F)) (slots name d') (c - 1) =
      upTo fileEvents (Function.update (slots name d) m none) (c - 1) := by
    refine upTo_congr ?_
    intro i hi
    rw [items, items, Function.update_of_ne (by omega), hbelow i hi]
  obtain ⟨hall, -⟩ := (readEventsChain_ok_iff hheight).1 hread
  refine (readEventsChain_ok_iff hheight').2 ⟨?_, hupTo.symm⟩
  intro i hi bs hbs
  rw [hbelow i hi] at hbs
  exact hall i (by omega) bs hbs

/-- Parts moved from `c` of the chain on are hidden, so nothing may be in them but in the oldest one. -/
private theorem keeps_hidden_iff (hslots : slots name d' = shifted c m (slots name d))
    (hc : c ∈ (sources (slots name d) m).take k) (hleast : ∀ i ∈ (sources (slots name d) m).take k, c ≤ i)
    (hge : c ≤ chainHeight d name) :
    KeepsReadable F name m k d d' ↔
      ∀ events, readEventsChain (F := F) d name = .ok events → HidesNothing F name m k d := by
  obtain ⟨hc1, hcm, -⟩ := mem_sources.1 (List.mem_of_mem_take hc)
  have hiff : (upTo (fileEvents (F := F)) (Function.update (slots name d) m none) (chainHeight d name)).Sublist
      (upTo fileEvents (Function.update (slots name d) m none) (c - 1)) ↔
      ∀ i, c - 1 < i → i ≤ chainHeight d name →
        items (fileEvents (F := F)) (Function.update (slots name d) m none) i = [] :=
    upTo_sublist_iff (by omega)
  rw [← retained_eq hc] at hiff
  constructor
  · intro hkeeps events hread i hi l hil hle hne
    obtain ⟨events', hread', hsub⟩ := hkeeps events hread
    obtain rfl : _ = events' := Except.ok.inj ((read_below hslots hc1 hcm hge hread).symm.trans hread')
    obtain ⟨hall, -⟩ := (readEventsChain_ok_iff (height_chainHeight d name)).1 hread
    have hci := hleast i hi
    have hempty := hiff.1 hsub l (by omega) hle
    rw [items, Function.update_of_ne hne] at hempty
    exact items_fileItems_of_fileEvents (hall l hle) hempty
  · intro hhides events hread
    refine ⟨_, read_below hslots hc1 hcm hge hread, hiff.2 ?_⟩
    intro i hi hle
    rw [items]
    by_cases hm : i = m
    · rw [hm, Function.update_self]
      rfl
    · rw [Function.update_of_ne hm]
      exact items_fileEvents_of_fileItems (hhides events hread c hc i (by omega) hle hm)

/-- A rotation that fails has made the first `k` of its operations. -/
private theorem slots_of_failed {j : JsonlJournal} {disk : Disk}
    (hfail : (rotateIfFull j).run ⟨d, some k⟩ = .error .raised disk) :
    slots j.path disk.dir = afterMoves (slots j.path d) j.maxFiles k := by
  have hspec := rotateIfFull_spec j d (some k)
  cases hfull : full j d with
  | false =>
    rw [hfull, if_neg Bool.false_ne_true, hfail] at hspec
    cases hspec
  | true =>
    rw [hfull, if_pos rfl, hfail] at hspec
    obtain ⟨k', hk', -, hslots⟩ := hspec
    rwa [← Option.some.inj hk'] at hslots

private theorem keepsReadable_iff {j : JsonlJournal} {disk : Disk}
    (hfail : (rotateIfFull j).run ⟨d, some k⟩ = .error .raised disk) :
    KeepsReadable F j.path j.maxFiles k d disk.dir ↔
      ∀ events, readEventsChain (F := F) d j.path = .ok events → HidesNothing F j.path j.maxFiles k d := by
  have hslots := slots_of_failed hfail
  rcases afterMoves_cases (slots j.path d) j.maxFiles k with ⟨hsame, htake⟩ | ⟨c, hc, hleast, hshift⟩
  · -- nothing was moved
    rw [hsame] at hslots
    constructor
    · intro _ events _ i hi
      rw [htake] at hi
      cases hi
    · intro _ events hread
      refine ⟨events, (read_congr hslots).2 hread, ?_⟩
      rw [retained, htake, if_neg List.not_mem_nil,
        ← ((readEventsChain_ok_iff (height_chainHeight d j.path)).1 hread).2]
  rw [hshift] at hslots
  rcases Nat.lt_or_ge (chainHeight d j.path) c with hlt | hge
  · constructor
    · intro _ events _ i hi l hl hle _
      have := hleast i hi
      omega
    · intro _
      exact keeps_above hslots hc hlt
  · exact keeps_hidden_iff hslots hc hleast hge

/-! ### Runs with failing rotations -/

/-- A rotation of the step that fails hides nothing. -/
def RotationClean (w : World F) : Act F → Prop
  | .call i _ (.rotate k) => ∀ j, w.writers[i]? = some j → full j w.dir = true →
      k ≤ (sources (slots j.path w.dir) j.maxFiles).length → HidesNothing F j.path j.maxFiles k w.dir
  | _ => True

/-- Nothing is hidden, and the writers have the settings of the journal. -/
structure Sound (cfg : Config) (w : World F) : Prop where
  nothingHidden : NothingHidden F cfg.path w.dir
  writers : ∀ j ∈ w.writers, j.path = cfg.path ∧ j.maxBytes = cfg.maxBytes ∧ j.maxFiles = cfg.maxFiles

private theorem nothingHidden_push {bs : Bytes} (h : NothingHidden F name d)
    (hslots : slots name d' = push (slots name d) bs) : NothingHidden F name d' := by
  refine tidy_congr h ?_
  intro i hi
  rw [hslots, push_of_pos hi]

private theorem nothingHidden_rotated {j : JsonlJournal} (h : NothingHidden F j.path d) :
    Tidy (fileItems F) (rotated j d) := by
  rw [rotated]
  cases hfull : full j d with
  | false => exact h
  | true =>
    obtain ⟨bs, hlive, -⟩ := full_eq_true hfull
    refine Tidy.shifted_zero h ?_
    rw [hlive]
    exact Option.some_ne_none bs

private theorem nothingHidden_call {j : JsonlJournal} (line : Bytes) (fault : Fault) (h : NothingHidden F j.path d)
    (hclean : ∀ k, fault = .rotate k → full j d = true → k ≤ (sources (slots j.path d) j.maxFiles).length →
      HidesNothing F j.path j.maxFiles k d) :
    NothingHidden F j.path (appendLocked j line fault d).2 := by
  have hpush : ∀ (d' : Dir) (bs : Bytes), slots j.path d' = push (rotated j d) bs →
      NothingHidden F j.path d' := by
    intro d' bs hslots
    refine tidy_congr (nothingHidden_rotated h) ?_
    intro i hi
    rw [hslots, push_of_pos hi]
  have hcases := appendLocked_cases j line fault d
  cases hrun : appendLocked j line fault d with
  | mk ok d' =>
    rw [hrun] at hcases
    cases hcases with
    | lock => exact h
    | rotate k _ hfull hk hslots =>
      rw [NothingHidden, hslots]
      rcases afterMoves_cases (slots j.path d) j.maxFiles k with ⟨hsame, -⟩ | ⟨c, hc, -, hshift⟩
      · rw [hsame]
        exact h
      · obtain ⟨hc1, hcm, -⟩ := mem_sources.1 (List.mem_of_mem_take hc)
        have hhides := hclean k rfl hfull (hk (by omega))
        rw [hshift]
        exact Tidy.shifted_part h hcm (hhides.empty h hc)
    | openLive _ hslots =>
      rw [NothingHidden, hslots]
      exact nothingHidden_rotated h
    | write n _ hslots => exact hpush d' _ hslots
    | done _ _ hfault hslots => exact hpush d' _ hslots

theorem Sound.step {cfg : Config} {w w' : World F} {a : Act F} (h : Sound cfg w) (hclean : RotationClean w a)
    (hstep : Journal.step cfg w a = some w') : Sound cfg w' := by
  cases a with
  | openWriter actor =>
    obtain rfl := Option.some.inj hstep
    constructor
    · have hlive := slots_touch_live cfg.path (touch (lockName cfg.path) w.dir)
      rw [slots_touch_lock] at hlive
      exact nothingHidden_push h.nothingHidden hlive
    · intro j hj
      rcases List.mem_append.1 hj with hj | hj
      · exact h.writers j hj
      · obtain rfl := List.mem_singleton.1 hj
        exact ⟨rfl, rfl, rfl⟩
  | close i =>
    obtain ⟨j, hj, rfl⟩ := Option.map_eq_some_iff.1 hstep
    constructor
    · exact h.nothingHidden
    · exact mem_writers_set h.writers hj fun hj => hj
  | call i c fault =>
    obtain ⟨j, hj, rfl⟩ := Option.map_eq_some_iff.1 hstep
    obtain ⟨hpath, hbytes, hfiles⟩ := h.writers j (List.mem_of_getElem? hj)
    dsimp only
    by_cases hclosed : j.closed = true
    · have hcall : j.call c fault w.dir = (.closed, j, w.dir) := by
        rw [JsonlJournal.call, if_pos hclosed]
      rw [hcall]
      constructor
      · exact h.nothingHidden
      · exact mem_writers_set h.writers hj fun hj => hj
    · have hhidden : NothingHidden F j.path w.dir := by
        rw [hpath]
        exact h.nothingHidden
      have hafter := nothingHidden_call (eventBytes (j.records c)) fault hhidden (by
        rintro k rfl hfull hk
        exact hclean j hj hfull hk)
      cases hrun : appendLocked j (eventBytes (j.records c)) fault w.dir with
      | mk ok d' =>
        rw [hrun, hpath] at hafter
        rw [call_eq hclosed hrun]
        constructor
        · exact hafter
        · exact mem_writers_set h.writers hj fun _ => ⟨hpath, hbytes, hfiles⟩

/-- Where nothing is hidden, a rotation that succeeds while a part up to the bound is missing drops no event. -/
private theorem rotation_below_bound {j : JsonlJournal} {disk : Disk} (h : NothingHidden F j.path d)
    (hmissing : ∃ i, 1 ≤ i ∧ i ≤ j.maxFiles ∧ slots j.path d i = none)
    (hread : readEventsChain (F := F) d j.path = .ok events)
    (hok : (rotateIfFull j).run ⟨d, none⟩ = .ok () disk) :
    readEventsChain disk.dir j.path = .ok events := by
  have hspec := rotateIfFull_spec j d none
  cases hfull : full j d with
  | false =>
    rw [hfull, if_neg Bool.false_ne_true, hok] at hspec
    have hdir : disk = ⟨d, none⟩ := (EStateM.Result.ok.inj hspec).2
    rw [hdir]
    exact hread
  | true =>
    rw [hfull, if_pos rfl, hok] at hspec
    obtain ⟨i, hi, him, hnone⟩ := hmissing
    have hmax : max 1 j.maxFiles = j.maxFiles := by omega
    have hslots : slots j.path disk.dir = shifted 0 j.maxFiles (slots j.path d) := by
      rw [Rotated, hmax] at hspec
      exact hspec
    obtain ⟨bs, hlive, -⟩ := full_eq_true hfull
    have hheight := height_chainHeight d j.path
    obtain ⟨hall, rfl⟩ := (readEventsChain_ok_iff hheight).1 hread
    -- the first missing part is below the bound, and nothing is stored above it
    have hlt : chainHeight d j.path < i := by
      by_contra hle
      exact hheight.1 i hi (by omega) hnone
    have habove : ∀ l, chainHeight d j.path < l → items (fileItems F) (slots j.path d) l = [] := by
      intro l hl
      rcases Nat.lt_or_ge (chainHeight d j.path + 1) l with hlt' | hge'
      · exact h _ l (by omega) hlt' hheight.2
      · obtain rfl : l = chainHeight d j.path + 1 := by omega
        exact items_none hheight.2
    have hreadable : ∀ l bs, slots j.path d l = some bs → Readable F bs := by
      intro l bs hbs
      rcases Nat.lt_or_ge (chainHeight d j.path) l with hlt' | hge'
      · have hempty := habove l hlt'
        rw [items, hbs, Option.elim_some] at hempty
        exact ⟨[], fileItems_eq_nil.1 hempty⟩
      · exact hall l hge' bs hbs
    have htidy : Tidy (fileEvents (F := F)) (shifted 0 j.maxFiles (slots j.path d)) := by
      have htidy' : Tidy (fileItems F) (shifted 0 j.maxFiles (slots j.path d)) :=
        Tidy.shifted_zero h (by rw [hlive]; exact Option.some_ne_none bs)
      intro a b ha hab hgap
      exact items_fileEvents_of_fileItems (htidy' a b ha hab hgap)
    have hheight' := height_chainHeight disk.dir j.path
    refine (readEventsChain_ok_iff hheight').2 ⟨?_, ?_⟩
    · intro l _ bs' hbs'
      rw [hslots] at hbs'
      rcases Nat.eq_zero_or_pos l with rfl | hl
      · cases hbs'
      · rw [shifted, if_neg (by omega), if_neg (by omega)] at hbs'
        split at hbs'
        · exact hreadable _ bs' hbs'
        · exact hreadable _ bs' hbs'
    · rw [hslots] at hheight' ⊢
      have hhigh : ∀ l, j.maxFiles < l → items (fileEvents (F := F)) (shifted 0 j.maxFiles (slots j.path d)) l = [] := by
        intro l hl
        rw [items, shifted_above hl (Nat.zero_le _)]
        exact items_fileEvents_of_fileItems (habove l (by omega))
      rw [htidy.upTo_height hheight' hhigh]
      have htop : items (fileEvents (F := F)) (slots j.path d) j.maxFiles = [] :=
        items_fileEvents_of_fileItems (habove _ (by omega))
      have hloss : upTo (fileEvents (F := F)) (slots j.path d) j.maxFiles =
          items fileEvents (slots j.path d) j.maxFiles ++
            upTo fileEvents (shifted 0 j.maxFiles (slots j.path d)) j.maxFiles := upTo_shifted (by omega)
      rw [htop, List.nil_append] at hloss
      rw [← hloss]
      refine (upTo_of_empty (by omega) ?_).symm
      intro l hl _
      exact items_fileEvents_of_fileItems (habove l hl)

/-- A rotation that fails keeps what was readable exactly when it hides nothing; and in a run whose failing rotations
hide nothing, no rotation that succeeds drops an event while a part up to the bound is missing. -/
theorem failing_rotations (F : Type) [JsonFloat F] (cfg : Config) :
    (∀ (j : JsonlJournal) (d : Dir) (k : Nat) (disk : Disk),
      (rotateIfFull j).run ⟨d, some k⟩ = .error .raised disk →
      (KeepsReadable F j.path j.maxFiles k d disk.dir ↔
        ∀ events, readEventsChain (F := F) d j.path = .ok events → HidesNothing F j.path j.maxFiles k d)) ∧
    (∀ (d : Dir) (acts : List (Act F)) (w : World F), NothingHidden F cfg.path d →
      Along (Journal.step cfg) RotationClean ⟨d, [], [], []⟩ acts →
      Runs.run (Journal.step cfg) ⟨d, [], [], []⟩ acts = some w →
      NothingHidden F cfg.path w.dir ∧
      ∀ j ∈ w.writers, ∀ disk events, (∃ i, 1 ≤ i ∧ i ≤ cfg.maxFiles ∧ slots cfg.path w.dir i = none) →
        readEventsChain (F := F) w.dir cfg.path = .ok events →
        (rotateIfFull j).run ⟨w.dir, none⟩ = .ok () disk →
        readEventsChain disk.dir cfg.path = .ok events) := by
  constructor
  · intro j d k disk hfail
    exact keepsReadable_iff hfail
  · intro d acts w hd hclean hrun
    have hstart : Sound cfg (⟨d, [], [], []⟩ : World F) := by
      constructor
      · exact hd
      · intro j hj
        cases hj
    have hsound : Sound cfg w :=
      Along.invariant (fun w a w' ha hstep h => Sound.step h ha hstep) hclean hrun hstart
    refine ⟨hsound.nothingHidden, ?_⟩
    intro j hj disk events hmissing hread hok
    obtain ⟨hpath, -, hfiles⟩ := hsound.writers j hj
    rw [← hpath] at hmissing hread ⊢
    rw [← hfiles] at hmissing
    refine rotation_below_bound ?_ hmissing hread hok
    rw [hpath]
    exact hsound.nothingHidden

/-- A chain of one archived part and a live file, with room for two parts. -/
def twoFiles : Dir :=
  ((∅ : Dir).insert "j.1" (encode "\x7b\"a\": 1\x7d\n".toList)).insert "j" (encode "\x7b\"b\": 2\x7d\n".toList)

/-- A journal whose live file is rotated before every call. -/
def smallJournal : JsonlJournal := ⟨"j", "t", 0, 1, 2, false⟩

/-- The files after the rename of `j.1` to `j.2`, where the rename of the live file failed. -/
def halfRotated : Dir := moveFile "j.1" "j.2" (encode "\x7b\"a\": 1\x7d\n".toList) twoFiles

/-- The part moved is hidden, and the next rotation removes it although part 1 is missing. -/
theorem failing_rotation_loses :
    (rotateIfFull smallJournal).run ⟨twoFiles, some 1⟩ = .error .raised ⟨halfRotated, some 0⟩ ∧
    readEventsChain (F := LitFloat) twoFiles "j" = .ok [[("a", .int 1)], [("b", .int 2)]] ∧
    readEventsChain (F := LitFloat) halfRotated "j" = .ok [[("b", .int 2)]] ∧
    ¬ KeepsReadable LitFloat "j" 2 1 twoFiles halfRotated ∧
    (readEvents (F := LitFloat) halfRotated "j.2" = .ok [[("a", .int 1)]] ∧ halfRotated.lookup "j.1" = none ∧
      ∃ disk, (rotateIfFull smallJournal).run ⟨halfRotated, none⟩ = .ok () disk ∧ disk.dir.keys = ["j.1"] ∧
        readEventsChain (F := LitFloat) disk.dir "j" = .ok [[("b", .int 2)]]) := by
  refine ⟨rfl, rfl, rfl, ?_, rfl, rfl, _, rfl, rfl, rfl⟩
  intro hkeeps
  obtain ⟨events, hread, hsub⟩ := hkeeps [[("a", .int 1)], [("b", .int 2)]] rfl
  have hafter : readEventsChain (F := LitFloat) halfRotated "j" = .ok [[("b", .int 2)]] := rfl
  obtain rfl : [[("b", Value.int 2)]] = events := Except.ok.inj (hafter.symm.trans hread)
  have hlen := hsub.length_le
  have hretained : (retained LitFloat "j" 2 1 twoFiles).length = 2 := rfl
  rw [hretained] at hlen
  exact absurd hlen (by decide)

private theorem nothingHidden_twoFiles : NothingHidden LitFloat "j" twoFiles := by
  have hslots : slots "j" twoFiles = push (Function.update (fun _ => none) 1 (some (encode "\x7b\"a\": 1\x7d\n".toList)))
      (encode "\x7b\"b\": 2\x7d\n".toList) := by
    have hpart : slots "j" ((∅ : Dir).insert "j.1" (encode "\x7b\"a\": 1\x7d\n".toList)) =
        Function.update (fun _ => none) 1 (some (encode "\x7b\"a\": 1\x7d\n".toList)) :=
      slots_insert "j" ∅ 1 _
    rw [← hpart]
    exact slots_insert "j" _ 0 _
  intro i j hi hij _
  rw [hslots, items, push_of_pos (by omega), Function.update_of_ne (by omega)]
  rfl

/-- Both parts at `twoFiles`: what its failing rotation keeps, and a rotation that succeeds and keeps both events,
since part 2 is missing. -/
theorem failing_rotations_twoFiles :
    (KeepsReadable LitFloat "j" 2 1 twoFiles halfRotated ↔
      ∀ events, readEventsChain (F := LitFloat) twoFiles "j" = .ok events → HidesNothing LitFloat "j" 2 1 twoFiles) ∧
    ∃ w disk, Runs.run (Journal.step ⟨"j", 1, 2⟩) (⟨twoFiles, [], [], []⟩ : World LitFloat) [.openWriter "t"] = some w ∧
      NothingHidden LitFloat "j" w.dir ∧ (rotateIfFull smallJournal).run ⟨w.dir, none⟩ = .ok () disk ∧
      readEventsChain (F := LitFloat) disk.dir "j" = .ok [[("a", .int 1)], [("b", .int 2)]] := by
  constructor
  · exact (failing_rotations LitFloat ⟨"j", 1, 2⟩).1 smallJournal twoFiles 1 ⟨halfRotated, some 0⟩ rfl
  · have hclean : Along (Journal.step ⟨"j", 1, 2⟩) RotationClean (⟨twoFiles, [], [], []⟩ : World LitFloat)
        [.openWriter "t"] := ⟨trivial, fun _ _ => trivial⟩
    obtain ⟨hhidden, hrot⟩ :=
      (failing_rotations LitFloat ⟨"j", 1, 2⟩).2 twoFiles [.openWriter "t"] _ nothingHidden_twoFiles hclean rfl
    refine ⟨_, _, rfl, hhidden, rfl, ?_⟩
    exact hrot smallJournal List.mem_cons_self _ _ ⟨2, by decide, by decide, rfl⟩ rfl rfl

end IronHarness.Journal
