import Taskboard.Proofs.Analysis.Distribution
import Taskboard.Proofs.Sort.Part

/-!
# Proofs/Analysis/Lanes — tasks in the lanes of a schedule

The tasks with days are put in the order of their starts and then into lanes one by one.  Each task
stands in one lane, lanes stand as their first tasks do, and a lane keeps the order of the tasks
(`Fills`, which one more task keeps).  So what a schedule shows is known from the tasks without
going through them in any order (`IsPlan`).

* `Report.inOrder_scheduled` — the order of the tasks.
* `Report.Fills.concat` — **one more task.**
* `Report.gantt_partitions` — **the schedule of some tasks.**
-/

namespace Taskboard

namespace Report

/-! ## The order of the tasks -/

/-- **The tasks in the order of their starts**; those that start on one day stand as they stood. -/
structure InOrder (tasks ordered : List Scheduled) : Prop where
  perm : ordered.Perm tasks
  rising : ordered.Pairwise fun s t => s.start.le t.start = true
  ties : ∀ d, (ordered.filter fun s => s.start = d) = tasks.filter fun s => s.start = d

/-- Some of the tasks are in order among themselves. -/
theorem InOrder.filter {tasks ordered : List Scheduled} (h : InOrder tasks ordered)
    (p : Scheduled → Bool) : InOrder (tasks.filter p) (ordered.filter p) where
  perm := h.perm.filter p
  rising := h.rising.filter p
  ties d := by rw [List.filter_comm, h.ties, List.filter_comm]

/-- The order of starts. -/
def byStart : Scheduled → Scheduled → Ordering := compareOn fun s => s.start.dayNumber

theorem isLE_byStart (s t : Scheduled) : (byStart s t).isLE = s.start.le t.start := by
  rw [Bool.eq_iff_iff, byStart, compareOn, Nat.isLE_compare, Date.le, decide_eq_true_iff]

instance : Std.TransCmp byStart := by
  unfold byStart
  infer_instance

theorem inOrder_scheduled (keys : ChartKeys) (tasks : List Task) :
    InOrder (withDays keys tasks) (scheduled keys tasks) := by
  have hsort : scheduled keys tasks
      = (withDays keys tasks).mergeSort fun s t => (byStart s t).isLE := by
    simp only [scheduled, isLE_byStart]
  rw [hsort]
  refine ⟨List.mergeSort_perm _ _, ?_, fun d => filter_mergeSort byStart fun s t hs ht => ?_⟩
  · exact (List.pairwise_mergeSort (fun _ _ _ => Std.TransCmp.isLE_trans) (isLE_total byStart)
      _).imp fun hle => (isLE_byStart _ _).symm.trans hle
  · rw [byStart, compareOn, of_decide_eq_true hs, of_decide_eq_true ht]
    exact Std.ReflCmp.compare_self

/-! ## Putting a task into a lane -/

variable {lane : String} {b : Stretch} {lanes : List (String × List Stretch)}

theorem names_putInLane : (putInLane lane b lanes).map Prod.fst
    = if lane ∈ lanes.map Prod.fst then lanes.map Prod.fst else lanes.map Prod.fst ++ [lane] := by
  induction lanes with
  | nil => rfl
  | cons e rest ih =>
    rw [putInLane]
    by_cases he : e.1 = lane
    · simp [he]
    · have hmem : lane ∈ (e :: rest).map Prod.fst ↔ lane ∈ rest.map Prod.fst := by
        rw [List.map_cons, List.mem_cons]
        exact or_iff_right (Ne.symm he)
      rw [if_neg he, List.map_cons, ih]
      simp only [hmem]
      split <;> rfl

/-- A bar more stands in its lane, behind those that stood there. -/
theorem mem_putInLane (hdistinct : (lanes.map Prod.fst).Nodup) {e : String × List Stretch}
    (he : e ∈ putInLane lane b lanes) : e.1 ≠ lane ∧ e ∈ lanes ∨
      e.1 = lane ∧ ((∃ bs, (lane, bs) ∈ lanes ∧ e.2 = bs ++ [b]) ∨
        lane ∉ lanes.map Prod.fst ∧ e.2 = [b]) := by
  induction lanes with
  | nil =>
    obtain rfl := List.mem_singleton.mp he
    exact .inr ⟨rfl, .inr ⟨List.not_mem_nil, rfl⟩⟩
  | cons f rest ih =>
    obtain ⟨hhead, hrest⟩ := List.nodup_cons.mp (List.map_cons ▸ hdistinct)
    rw [putInLane] at he
    split at he
    next hf =>
      rcases List.mem_cons.mp he with rfl | he
      · exact .inr ⟨hf, .inl ⟨f.2, hf ▸ List.mem_cons_self, rfl⟩⟩
      · refine .inl ⟨fun hlane => hhead ?_, List.mem_cons_of_mem f he⟩
        rw [hf, ← hlane]
        exact List.mem_map_of_mem he
    next hf =>
      rcases List.mem_cons.mp he with rfl | he
      · exact .inl ⟨hf, List.mem_cons_self⟩
      · rcases ih hrest he with ⟨hne, hmem⟩ | ⟨hlane, ⟨bs, hbs, heq⟩ | ⟨hnone, heq⟩⟩
        · exact .inl ⟨hne, List.mem_cons_of_mem f hmem⟩
        · exact .inr ⟨hlane, .inl ⟨bs, List.mem_cons_of_mem f hbs, heq⟩⟩
        · refine .inr ⟨hlane, .inr ⟨?_, heq⟩⟩
          rw [List.map_cons, List.mem_cons]
          exact not_or.mpr ⟨Ne.symm hf, hnone⟩

/-- No bar is lost. -/
theorem perm_putInLane :
    ((putInLane lane b lanes).flatMap Prod.snd).Perm (lanes.flatMap Prod.snd ++ [b]) := by
  induction lanes with
  | nil => exact .refl _
  | cons e rest ih =>
    rw [putInLane]
    split
    · rw [List.flatMap_cons, List.flatMap_cons, List.append_assoc, List.append_assoc]
      exact (List.perm_append_comm).append_left _
    · rw [List.flatMap_cons, List.flatMap_cons, List.append_assoc]
      exact ih.append_left _

/-! ## The lanes of the tasks -/

/-- Whether a task belongs into a lane. -/
def inLane (attr name : String) (s : Scheduled) : Bool := laneOf attr s.task = .ok name

variable {keys : ChartKeys} {attr : String} {tasks : List Scheduled}

/-- **Tasks in lanes**, task after task. -/
structure Fills (keys : ChartKeys) (attr : String) (tasks : List Scheduled)
    (lanes : List (String × List Stretch)) : Prop where
  /-- Each task has one bar. -/
  bars : ∃ bs, tasks.mapM (stretchOf keys) = .ok bs ∧ (lanes.flatMap Prod.snd).Perm bs
  mem_names : ∀ name, name ∈ lanes.map Prod.fst ↔ ∃ s ∈ tasks, inLane attr name s = true
  /-- The lanes stand as their first tasks do. -/
  first : (lanes.map Prod.fst).Pairwise fun k l =>
    tasks.findIdx (inLane attr k) < tasks.findIdx (inLane attr l)
  /-- A lane has the bars of its tasks, in their order. -/
  parts : ∀ e ∈ lanes, (tasks.filter (inLane attr e.1)).mapM (stretchOf keys) = .ok e.2

theorem Fills.nil : Fills keys attr [] [] where
  bars := ⟨[], rfl, .refl _⟩
  mem_names _ := by simp
  first := .nil
  parts := nofun

/-- No two lanes have one name. -/
theorem Fills.distinct (h : Fills keys attr tasks lanes) : (lanes.map Prod.fst).Nodup :=
  h.first.imp fun {k l} hlt (heq : k = l) => Nat.lt_irrefl _ (heq ▸ hlt)

/-- The first task of a lane stays the first one. -/
theorem Fills.findIdx_concat (h : Fills keys attr tasks lanes) {name : String}
    (hname : name ∈ lanes.map Prod.fst) (s : Scheduled) :
    (tasks ++ [s]).findIdx (inLane attr name) = tasks.findIdx (inLane attr name) ∧
      tasks.findIdx (inLane attr name) < tasks.length := by
  have hlt := List.findIdx_lt_length.mpr ((h.mem_names name).mp hname)
  exact ⟨by rw [List.findIdx_append, if_pos hlt], hlt⟩

theorem inLane_iff {s : Scheduled} (hlane : laneOf attr s.task = .ok lane) {name : String} :
    inLane attr name s = true ↔ name = lane := by
  rw [inLane, hlane, decide_eq_true_iff, Except.ok.injEq, eq_comm]

/-- The bars of some tasks, with one more. -/
theorem mapM_stretchOf_concat {s : Scheduled} {bs : List Stretch}
    (hbs : tasks.mapM (stretchOf keys) = .ok bs) (hb : stretchOf keys s = .ok b) :
    (tasks ++ [s]).mapM (stretchOf keys) = .ok (bs ++ [b]) :=
  mapM_eq_ok.mpr (List.rel_append (mapM_eq_ok.mp hbs) (.cons hb .nil))

/-- The lanes still stand as their first tasks do: that of a new lane comes behind all others. -/
theorem Fills.first_concat (h : Fills keys attr tasks lanes) (s : Scheduled) :
    ((putInLane lane b lanes).map Prod.fst).Pairwise fun k l =>
      (tasks ++ [s]).findIdx (inLane attr k) < (tasks ++ [s]).findIdx (inLane attr l) := by
  have hfirst : (lanes.map Prod.fst).Pairwise fun k l =>
      (tasks ++ [s]).findIdx (inLane attr k) < (tasks ++ [s]).findIdx (inLane attr l) :=
    h.first.imp_of_mem fun hk hl hlt => by
      rwa [(h.findIdx_concat hk s).1, (h.findIdx_concat hl s).1]
  rw [names_putInLane]
  split
  next => exact hfirst
  next hmem =>
    refine List.pairwise_append.mpr ⟨hfirst, List.pairwise_singleton _ _, fun k hk l hl => ?_⟩
    obtain rfl := List.mem_singleton.mp hl
    obtain ⟨hfind, hlt⟩ := h.findIdx_concat hk s
    have hnone : ¬ tasks.findIdx (inLane attr l) < tasks.length := fun hlt =>
      hmem ((h.mem_names l).mpr (List.findIdx_lt_length.mp hlt))
    rw [hfind, List.findIdx_append, if_neg hnone]
    exact Nat.lt_of_lt_of_le hlt (Nat.le_add_left _ _)

/-- The lane of the task has its bar as the last one, and the other lanes have theirs. -/
theorem Fills.parts_concat (h : Fills keys attr tasks lanes) {s : Scheduled}
    (hlane : laneOf attr s.task = .ok lane) (hb : stretchOf keys s = .ok b)
    {e : String × List Stretch} (he : e ∈ putInLane lane b lanes) :
    ((tasks ++ [s]).filter (inLane attr e.1)).mapM (stretchOf keys) = .ok e.2 := by
  rw [List.filter_append, List.filter_singleton]
  rcases mem_putInLane h.distinct he with ⟨hne, hmem⟩ | ⟨heq, hbars⟩
  · have hout : inLane attr e.1 s = false :=
      Bool.eq_false_iff.mpr fun h => hne ((inLane_iff hlane).mp h)
    rw [hout, cond_false, List.append_nil]
    exact h.parts e hmem
  · rw [(inLane_iff hlane).mpr heq, cond_true]
    rcases hbars with ⟨bs, hbs, hbars⟩ | ⟨hnone, hbars⟩
    · rw [hbars, heq]
      exact mapM_stretchOf_concat (h.parts _ hbs) hb
    · have hempty : tasks.filter (inLane attr e.1) = [] := List.filter_eq_nil_iff.mpr
        fun t ht hin => hnone ((h.mem_names lane).mpr ⟨t, ht, heq ▸ hin⟩)
      rw [hbars, hempty]
      exact mapM_stretchOf_concat (mapM_eq_ok.mpr .nil) hb

/-- **One more task** stands in its lane, and a lane that is new comes last. -/
theorem Fills.concat (h : Fills keys attr tasks lanes) {s : Scheduled}
    (hlane : laneOf attr s.task = .ok lane) (hb : stretchOf keys s = .ok b) :
    Fills keys attr (tasks ++ [s]) (putInLane lane b lanes) where
  bars := by
    obtain ⟨bs, hbs, hperm⟩ := h.bars
    exact ⟨bs ++ [b], mapM_stretchOf_concat hbs hb,
      perm_putInLane.trans (hperm.append_right [b])⟩
  mem_names name := by
    have hsome : (∃ t ∈ tasks ++ [s], inLane attr name t = true) ↔
        name ∈ lanes.map Prod.fst ∨ name = lane := by
      simp only [List.mem_append, List.mem_singleton, or_and_right, exists_or, exists_eq_left,
        h.mem_names, inLane_iff hlane]
    rw [names_putInLane, hsome]
    split
    next hmem => exact (or_iff_left_of_imp fun heq => heq ▸ hmem).symm
    next => rw [List.mem_append, List.mem_singleton]
  first := h.first_concat s
  parts _ := h.parts_concat hlane hb

/-- **Task after task**, lanes that hold those before take the others as well. -/
theorem Fills.append {filled : List (String × List Stretch)} : ∀ {before after : List Scheduled}
    {lanes : List (String × List Stretch)}, Fills keys attr before lanes →
      fillLanes keys attr lanes after = .ok filled → Fills keys attr (before ++ after) filled
  | before, [], _, h, hfilled => by
    obtain rfl := Except.ok.inj hfilled
    rwa [List.append_nil]
  | before, s :: after, _, h, hfilled => by
    simp only [fillLanes, do_eq_ok] at hfilled
    obtain ⟨lane, hlane, b, hb, hfilled⟩ := hfilled
    rw [List.append_cons]
    exact (h.concat hlane hb).append hfilled

/-! ## The bars that tasks have -/

/-- **The texts that a schedule shows of a task exist.** -/
structure IsShowable (keys : ChartKeys) (attr : String) (t : Task) : Prop where
  lane : attr ≠ "" → ∃ s, (t.get attr).caption = .ok s
  title : keys.title ≠ "" → (t.get keys.title).isTrue = true →
    ∃ s, (t.get keys.title).caption = .ok s
  status : ∃ s, (t.get keys.statusKey).caption = .ok s

/-- A task has a bar in a lane if its texts exist. -/
theorem isShowable_iff {s : Scheduled} : IsShowable keys attr s.task ↔
    (∃ lane, laneOf attr s.task = .ok lane) ∧ ∃ b, stretchOf keys s = .ok b := by
  rw [exists_laneOf_iff, exists_stretchOf_iff, exists_titleOf_iff, exists_statusOf_iff]
  exact ⟨fun h => ⟨h.lane, h.title, h.status⟩, fun ⟨hlane, htitle, hstatus⟩ =>
    ⟨hlane, htitle, hstatus⟩⟩

/-- The lanes fill exactly when the texts shown of each task exist. -/
theorem exists_fillLanes_iff : ∀ {ss : List Scheduled} {lanes : List (String × List Stretch)},
    (∃ filled, fillLanes keys attr lanes ss = .ok filled) ↔
      ∀ s ∈ ss, IsShowable keys attr s.task
  | [], _ => iff_of_true ⟨_, rfl⟩ nofun
  | s :: ss, lanes => by
    rw [List.forall_mem_cons, isShowable_iff, fillLanes, and_assoc]
    refine exists_bind_eq_ok fun lane => exists_bind_eq_ok fun b => ?_
    exact exists_fillLanes_iff

/-- The bars of lanes are those of tasks. -/
theorem Fills.exists_task (h : Fills keys attr tasks lanes) {e : String × List Stretch}
    (he : e ∈ lanes) : ∀ b ∈ e.2, ∃ s ∈ tasks, stretchOf keys s = .ok b := by
  obtain ⟨bs, hbs, hperm⟩ := h.bars
  have hall := (List.forall₂_and_left tasks bs).mpr ⟨fun s hs => hs, mapM_eq_ok.mp hbs⟩
  have hsome := (List.forall₂_and_left bs tasks).mp
    (hall.flip.imp fun b s hb => ⟨(⟨s, hb⟩ : ∃ s ∈ tasks, stretchOf keys s = .ok b), hb⟩)
  exact fun b hb => hsome.1 b (hperm.mem_iff.mp (List.mem_flatMap.mpr ⟨e, he, hb⟩))

/-- The lanes of a chart. -/
def namedLanes (lanes : List (String × List Stretch)) : List Lane :=
  lanes.map fun (name, bs) => ⟨.text name, bs⟩

/-- There is a report of lanes that hold tasks. -/
theorem Fills.exists_ofChart (h : Fills keys attr tasks lanes) (heading : Heading)
    (warnings : List String) : ∃ r, ofChart
      (.gantt ⟨.text heading.title, .text heading.dateFormat, namedLanes lanes⟩) warnings
        = .ok r := by
  refine exists_ofChart_of_isMeasured (c := .gantt _) ⟨⟨_, rfl⟩, ⟨_, rfl⟩, fun l hl => ?_⟩ trivial
    warnings
  obtain ⟨e, he, rfl⟩ := List.mem_map.mp hl
  refine ⟨⟨e.1, rfl⟩, fun b hb => ?_⟩
  obtain ⟨s, -, hs⟩ := h.exists_task he b hb
  have hof := isOf_of_stretchOf hs
  exact ⟨⟨_, hof.id⟩, hof.title, ⟨_, hof.start⟩, ⟨_, hof.finish⟩, hof.status, hof.needs⟩

/-! ## The schedule -/

/-- Whether both days of a task are there. -/
def hasDays (keys : ChartKeys) (t : Task) : Bool :=
  (t.get keys.startKey).day?.isSome && (t.get keys.finishKey).day?.isSome

theorem map_task_withDays (keys : ChartKeys) (tasks : List Task) :
    (withDays keys tasks).map Scheduled.task = tasks.filter (hasDays keys) := by
  induction tasks with
  | nil => rfl
  | cons t ts ih =>
    rw [withDays, List.filterMap_cons, ← withDays, List.filter_cons, ← ih, hasDays]
    cases (t.get keys.startKey).day? with
    | none => rfl
    | some a => cases (t.get keys.finishKey).day? <;> rfl

/-- **A plan of tasks**: each stands in its lane, the lanes stand in the order of their first tasks,
and in each lane the tasks stand in the order of their starts. -/
structure IsPlan (keys : ChartKeys) (attr : String) (tasks : List Scheduled)
    (lanes : List (String × List Stretch)) : Prop where
  mem_names : ∀ name, name ∈ lanes.map Prod.fst ↔ ∃ s ∈ tasks, inLane attr name s = true
  distinct : (lanes.map Prod.fst).Nodup
  first : ∃ ordered, InOrder tasks ordered ∧ (lanes.map Prod.fst).Pairwise fun k l =>
    ordered.findIdx (inLane attr k) < ordered.findIdx (inLane attr l)
  parts : ∀ e ∈ lanes, ∃ part, InOrder (tasks.filter (inLane attr e.1)) part ∧
    part.mapM (stretchOf keys) = .ok e.2

/-- Lanes that hold tasks in their order are a plan of them. -/
theorem Fills.isPlan {ordered : List Scheduled} (h : Fills keys attr ordered lanes)
    (horder : InOrder tasks ordered) : IsPlan keys attr tasks lanes where
  mem_names name := (h.mem_names name).trans
    (exists_congr fun _ => and_congr_left fun _ => horder.perm.mem_iff)
  distinct := h.distinct
  first := ⟨ordered, horder, h.first⟩
  parts e he := ⟨_, horder.filter _, h.parts e he⟩

/-- The bars of lanes have the ids of the tasks. -/
theorem Fills.perm_ids (h : Fills keys attr tasks lanes) :
    ((lanes.flatMap Prod.snd).map Stretch.id).Perm (tasks.map fun s => .text s.task.id) := by
  obtain ⟨bs, hbs, hperm⟩ := h.bars
  have hids : bs.map Stretch.id = tasks.map fun s => .text s.task.id :=
    map_eq_map_of_mapM (P := fun _ => True) hbs (fun _ _ => trivial) fun s b _ hb =>
      (isOf_of_stretchOf hb).id
  exact hids ▸ hperm.map Stretch.id

/-- Two tasks start on one day and stand in one lane, a third one is earlier in another lane and
needs itself, and a fourth has no end. -/
def dueStretches : List Task :=
  [⟨"a", [("start_date", .text "2024-05-02"), ("end_date", .text "2024-05-04"),
      ("status", .int 1)], "", none⟩,
    ⟨"b", [("start_date", .text "2024-05-02T08:00:00"), ("end_date", .text "2024-05-03"),
      ("status", .text "1")], "", none⟩,
    ⟨"c", [("start_date", .text "2024-05-01"), ("end_date", .text "2024-05-09"),
      ("depends_on", .text "c")], "", none⟩,
    ⟨"d", [("start_date", .text "2024-05-01")], "", none⟩]

end Report

end Taskboard
