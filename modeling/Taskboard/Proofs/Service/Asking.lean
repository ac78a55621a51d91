import Taskboard.Service.Handle

/-!
# Proofs/Service/Asking — which requests ask for the tasks, and what becomes of these

Some requests ask for the tasks (`Service.asks?`), and some of these want them read anew.

* `Service.serve_asking` — a route that asks for the tasks goes on as if it had just read them.
* `Service.answer_of_tasks` — **a request that asks for the tasks is answered from them.**
* `Service.handle_error` — a request that does not get the tasks it asks for changes nothing.
* `Service.handle_quiet` — to all other requests it is all one what is kept of the tasks.
-/

namespace Taskboard

variable {s : Service} {r : Request}

/-- A request without the wish to have the tasks read anew. -/
def Request.unforced (r : Request) : Request :=
  { r with query := r.query.filter fun e => e.1 ≠ "refresh" }

namespace Request

theorem entryAt?_filter {key name : String} (h : name ≠ key) :
    ∀ es : List (String × String), entryAt? name (es.filter fun e => e.1 ≠ key) = entryAt? name es
  | [] => rfl
  | (k, v) :: es => by
    have hrest := entryAt?_filter h es
    by_cases hk : k = key
    · rw [List.filter_cons_of_neg (by simp [hk]), hrest, entryAt?, if_neg (hk ▸ h.symm)]
    · rw [List.filter_cons_of_pos (by simp [hk]), entryAt?, entryAt?, hrest]

/-- The entries of a query that count for something are the same without those that do not. -/
theorem filterMap_firstEntries_filter {α : Type} {key : String} {f : String × String → Option α}
    (hf : ∀ v, f (key, v) = none) : ∀ (es : List (String × String)) {seen counted : List String},
      (∀ k ≠ key, seen.contains k = counted.contains k) →
        (firstEntries seen (es.filter fun e => e.1 ≠ key)).filterMap f
          = (firstEntries counted es).filterMap f
  | [], _, _, _ => rfl
  | (k, v) :: es, seen, counted, hseen => by
    by_cases hk : k = key
    · subst hk
      rw [List.filter_cons_of_neg (by simp), firstEntries]
      split
      · exact filterMap_firstEntries_filter hf es hseen
      · rw [List.filterMap_cons_none (hf v)]
        refine filterMap_firstEntries_filter hf es fun j hj => ?_
        rw [hseen j hj, List.contains_cons, beq_false_of_ne hj, Bool.false_or]
    · rw [List.filter_cons_of_pos (by simp [hk]), firstEntries, firstEntries, hseen k hk]
      split
      · exact filterMap_firstEntries_filter hf es hseen
      · have hmore : ∀ j ≠ key, (k :: seen).contains j = (k :: counted).contains j := fun j hj => by
          rw [List.contains_cons, List.contains_cons, hseen j hj]
        rw [List.filterMap_cons, List.filterMap_cons, filterMap_firstEntries_filter hf es hmore]

variable {name : String}

theorem arg?_unforced (h : name ≠ "refresh") : r.unforced.arg? name = r.arg? name :=
  entryAt?_filter h _

theorem argOr_unforced {usual : String} (h : name ≠ "refresh") :
    r.unforced.argOr name usual = r.argOr name usual := by
  rw [argOr, arg?_unforced h, argOr]

theorem filled?_unforced (h : name ≠ "refresh") : r.unforced.filled? name = r.filled? name := by
  rw [filled?, arg?_unforced h, filled?]

/-- A request without the wish is not one to read tasks anew. -/
theorem argOr_refresh_unforced (usual : String) : r.unforced.argOr "refresh" usual = usual := by
  have hnone : ∀ es : List (String × String),
      entryAt? "refresh" (es.filter fun e => e.1 ≠ "refresh") = none := fun es => by
    induction es with
    | nil => rfl
    | cons e es ih =>
      by_cases he : e.1 = "refresh"
      · rw [List.filter_cons_of_neg (by simp [he]), ih]
      · rw [List.filter_cons_of_pos (by simp [he]), entryAt?, if_neg he, ih]
  rw [argOr, arg?, unforced, hnone, Option.getD_none]

theorem json?_unforced : r.unforced.json? = r.json? := rfl

theorem bodyOf_unforced : Service.bodyOf r.unforced = Service.bodyOf r := rfl

theorem listQuery_unforced (criterion : Criterion) :
    Service.listQuery criterion r.unforced = Service.listQuery criterion r := by
  have htags : r.unforced.args.filterMap Service.tagCondition?
      = r.args.filterMap Service.tagCondition? :=
    filterMap_firstEntries_filter
      (fun v => if_neg (show ¬startsWith Service.tagMark "refresh" = true by decide)) r.query
      fun _ _ => rfl
  rw [Service.listQuery, htags, Service.listQuery]

theorem drawing_unforced (settings : Settings) (kind : String) (tasks : List Task) :
    Service.drawing settings kind r.unforced tasks = Service.drawing settings kind r tasks := by
  unfold Service.drawing Service.report Service.dateRange Service.required Service.aggregation
    Service.metric?
  simp only [arg?_unforced, argOr_unforced, filled?_unforced, ne_eq, String.reduceEq,
    not_false_eq_true]

end Request

namespace Service

/-! ## Requests for tasks -/

/-- Whether the schedule would open with the rows of the tasks: it is closed, and none are saved. -/
def opensTasks (s : Service) : Bool :=
  match s.session, s.store.loadSchedule with
  | none, .ok [] => true
  | _, _ => false

/-- Whether a route asks for the tasks, and if so whether they are to be read anew in any case. -/
def routeAsks? (route : Route) (r : Request) (s : Service) : Option Bool :=
  match route with
  | .listTasks => (Criterion.named? (r.argOr "sort" "name-asc")).map fun _ =>
      lowerText (r.argOr "refresh" "false") = "true"
  | .queryTasks => if (s.wish (r.json?.getD .null)).isOk then some false else none
  | .listCycles | .drawChart _ => some false
  | .showSchedule => if s.opensTasks then some false else none
  | .moveRow _ => if (bodyTimes (bodyOf r)).isOk && s.opensTasks then some false else none
  | .closeSchedule | .reportHealth | .sendAsset => none

/-- **Whether a request asks for the tasks**, and if so whether they are to be read anew in any
case. -/
def asks? (r : Request) (s : Service) : Option Bool :=
  match Destination.ofRequest r.path (upperText r.method) with
  | .route route => routeAsks? route r s
  | _ => none

/-- The service with other tasks kept. -/
def keeping (c : Option TaskCache) (s : Service) : Service := { s with cache := c }

@[simp] theorem keeping_store (c : Option TaskCache) : (s.keeping c).store = s.store := rfl

@[simp] theorem keeping_session (c : Option TaskCache) : (s.keeping c).session = s.session := rfl

@[simp] theorem keeping_wish (c : Option TaskCache) (body : Value) :
    wish body (s.keeping c) = wish body s := rfl

/-! ## Getting the tasks -/

theorem tasks_anew {force : Bool} (h : (force || s.isStale) = true) : s.tasks force = s.reload :=
  if_pos h

theorem tasks_kept {force : Bool} (h : (force || s.isStale) = false) :
    s.tasks force = (.ok s.kept, s) := by
  rw [tasks, h]
  rfl

/-- Getting the tasks changes nothing but what is kept of them. -/
theorem tasks_eq (force : Bool) (s : Service) :
    s.tasks force = ((s.tasks force).1, s.keeping (s.tasks force).2.cache) := by
  unfold tasks
  split
  · unfold reload
    split <;> rfl
  · rfl

/-- A failure to get the tasks is one of the store, and changes nothing. -/
theorem tasks_error {force : Bool} {f : Fault} (h : (s.tasks force).1 = .error f) :
    s.tasks force = (.error f, s) := by
  unfold tasks reload at *
  split at h
  · split at h
    · cases h
    · simp_all
  · cases h

/-- A service that has just read some tasks. -/
def having (tasks : List Task) (s : Service) : Service := s.keeping (some ⟨s.now, tasks⟩)

/-- Tasks that were just read are at hand. -/
theorem tasks_having (tasks : List Task) (s : Service) :
    (s.having tasks).tasks false = (.ok tasks, s.having tasks) := by
  refine tasks_kept ?_
  simp [having, keeping, isStale, cacheLife]

/-- Getting the tasks and going on with them. -/
def withTasks {α : Type} (force : Bool) (next : List Task → Served α) (s : Service) : Served α :=
  match s.tasks force with
  | (.error f, s) => (.error f, s)
  | (.ok tasks, s) => ((next tasks).1, { s with session := (next tasks).2.session })

section

variable {α : Type} {force : Bool} {next : List Task → Served α}

theorem withTasks_ok {tasks : List Task} (h : (s.tasks force).1 = .ok tasks) :
    s.withTasks force next =
      ((next tasks).1, { (s.tasks force).2 with session := (next tasks).2.session }) := by
  rw [withTasks, tasks_eq, h]

theorem withTasks_error {f : Fault} (h : (s.tasks force).1 = .error f) :
    s.withTasks force next = (.error f, s) := by
  rw [withTasks, tasks_error h]

/-- What an action does after a failure to get the tasks, and what it does with them. -/
theorem eq_withTasks {act : Served α}
    (herror : ∀ f, s.tasks force = (.error f, s) → act = (.error f, s))
    (hok : ∀ tasks c, s.tasks force = (.ok tasks, s.keeping c) →
      act = ((next tasks).1, { s.keeping c with session := (next tasks).2.session })) :
    act = s.withTasks force next := by
  cases h : (s.tasks force).1 with
  | error f => rw [withTasks_error h, herror f (tasks_error h)]
  | ok tasks =>
    have hgot : s.tasks force = (.ok tasks, s.keeping (s.tasks force).2.cache) := by
      rw [← h]
      exact tasks_eq force s
    rw [withTasks_ok h, hok tasks _ hgot, hgot]
    rfl

end

/-! ## Routes that ask for the tasks -/

section

variable {route : Route} {force : Bool}

theorem openTasks_asking (s : Service) :
    s.openTasks = s.withTasks false fun tasks => (s.having tasks).openTasks := by
  refine eq_withTasks (fun f h => by rw [openTasks, h]) fun tasks c h => ?_
  rw [openTasks, openTasks, h, tasks_having]
  dsimp only [having, keeping]
  cases Row.ofTasks s.settings.rowKeys tasks <;> rfl

theorem openSchedule_asking (h : s.opensTasks = true) :
    s.openSchedule = s.withTasks false fun tasks => (s.having tasks).openSchedule := by
  have hopen (t : Service) (hsession : t.session = s.session) (hstore : t.store = s.store) :
      t.openSchedule = t.openTasks := by
    unfold opensTasks at h
    rw [openSchedule, hsession, hstore]
    split at h
    next hclosed hnone => rw [hclosed, hnone]
    next => cases h
  have hhaving : (fun tasks => (s.having tasks).openSchedule) =
      fun tasks => (s.having tasks).openTasks := funext fun tasks => hopen _ rfl rfl
  rw [hopen s rfl rfl, hhaving, openTasks_asking s]

/-- Whether the tasks are to be read anew concerns only their list. -/
theorem serve_unforced (s : Service) (r : Request) (hroute : route ≠ .listTasks) :
    s.serve route r.unforced = s.serve route r := by
  cases route with
  | listTasks => exact absurd rfl hroute
  | drawChart kind => simp only [serve, drawChart, Request.drawing_unforced]
  | queryTasks =>
    unfold serve queryTasks
    dsimp only
    rw [Request.json?_unforced]
  | moveRow id =>
    unfold serve moveRow
    dsimp only
    rw [Request.bodyOf_unforced]
  | listCycles | showSchedule | closeSchedule | reportHealth | sendAsset => rfl

theorem listTasks_asking {criterion : Criterion}
    (hname : Criterion.named? (r.argOr "sort" "name-asc") = some criterion) :
    s.listTasks r = s.withTasks (lowerText (r.argOr "refresh" "false") = "true")
      fun tasks => (s.having tasks).listTasks r.unforced := by
  have hlist (tasks : List Task) : (s.having tasks).listTasks r.unforced =
      (((listQuery criterion r).run tasks).bind taskList, s.having tasks) := by
    simp only [listTasks, Request.argOr_unforced (show "sort" ≠ "refresh" by decide), hname,
      Request.argOr_refresh_unforced, Request.listQuery_unforced]
    rw [show decide (lowerText "false" = "true") = false by decide, tasks_having]
  simp only [hlist]
  simp only [listTasks, hname]
  refine eq_withTasks (fun f h => by rw [h]) fun tasks c h => ?_
  rw [h]
  rfl

theorem queryTasks_asking (r : Request) (hwish : (s.wish (r.json?.getD .null)).isOk = true) :
    s.queryTasks r = s.withTasks false fun tasks => (s.having tasks).queryTasks r := by
  cases hw : s.wish (r.json?.getD .null) with
  | error f => rw [hw] at hwish; cases hwish
  | ok w =>
    have hhaving (tasks : List Task) : (s.having tasks).wish (r.json?.getD .null) = .ok w :=
      (keeping_wish _ _).trans hw
    refine eq_withTasks (fun f h => ?_) fun tasks c h => ?_
    · unfold queryTasks
      rw [hw]
      dsimp only
      rw [h]
    · unfold queryTasks
      rw [hw, hhaving]
      dsimp only
      rw [h, tasks_having]
      rfl

theorem listCycles_asking (s : Service) :
    s.listCycles = s.withTasks false fun tasks => (s.having tasks).listCycles := by
  refine eq_withTasks (fun f h => by rw [listCycles, h]) fun tasks c h => ?_
  rw [listCycles, listCycles, h, tasks_having]
  rfl

theorem drawChart_asking (kind : String) (r : Request) (s : Service) :
    s.drawChart kind r = s.withTasks false fun tasks => (s.having tasks).drawChart kind r := by
  refine eq_withTasks (fun f h => by rw [drawChart, h]) fun tasks c h => ?_
  rw [drawChart, drawChart, h, tasks_having]
  dsimp only [having, keeping]
  cases drawing s.settings kind r tasks <;> rfl

theorem showSchedule_asking (hopens : s.opensTasks = true) :
    s.showSchedule = s.withTasks false fun tasks => (s.having tasks).showSchedule := by
  have hopen := openSchedule_asking hopens
  refine eq_withTasks (fun f h => ?_) fun tasks c h => ?_
  · rw [showSchedule, hopen, withTasks, h]
  · rw [showSchedule, showSchedule, hopen, withTasks, h]
    dsimp only
    rcases (s.having tasks).openSchedule with ⟨_ | session, t⟩ <;> rfl

theorem moveRow_asking (id : String) (htimes : (bodyTimes (bodyOf r)).isOk = true)
    (hopens : s.opensTasks = true) :
    s.moveRow id r = s.withTasks false fun tasks => (s.having tasks).moveRow id r := by
  have hopen := openSchedule_asking hopens
  unfold moveRow
  cases ht : bodyTimes (bodyOf r) with
  | error f => rw [ht] at htimes; cases htimes
  | ok times =>
    dsimp only
    refine eq_withTasks (fun f h => ?_) fun tasks c h => ?_
    · rw [hopen, withTasks, h]
    · rw [hopen, withTasks, h]
      dsimp only
      rcases (s.having tasks).openSchedule with ⟨_ | session, t⟩ <;> rfl

/-- **A route that asks for the tasks goes on as if it had just read them.** -/
theorem serve_asking (hasks : routeAsks? route r s = some force) :
    s.serve route r = s.withTasks force fun tasks => (s.having tasks).serve route r.unforced := by
  unfold routeAsks? at hasks
  cases route with
  | listTasks =>
    obtain ⟨criterion, hname, rfl⟩ := Option.map_eq_some_iff.mp hasks
    exact listTasks_asking hname
  | queryTasks =>
    obtain ⟨hwish, hforce⟩ := Option.ite_none_right_eq_some.mp hasks
    obtain rfl := Option.some.inj hforce
    -- the request goes first: with the routes unfolded, its body would be read to compare them
    simp only [serve_unforced _ r (show Route.queryTasks ≠ .listTasks by decide)]
    simp only [serve]
    exact queryTasks_asking r hwish
  | listCycles =>
    obtain rfl := Option.some.inj hasks
    exact listCycles_asking s
  | drawChart kind =>
    obtain rfl := Option.some.inj hasks
    simp only [serve_unforced _ r (show Route.drawChart kind ≠ .listTasks by simp)]
    simp only [serve]
    exact drawChart_asking kind r s
  | showSchedule =>
    obtain ⟨hopens, hforce⟩ := Option.ite_none_right_eq_some.mp hasks
    obtain rfl := Option.some.inj hforce
    exact showSchedule_asking hopens
  | moveRow id =>
    obtain ⟨hboth, hforce⟩ := Option.ite_none_right_eq_some.mp hasks
    obtain rfl := Option.some.inj hforce
    obtain ⟨htimes, hopens⟩ := Bool.and_eq_true_iff.mp hboth
    simp only [serve_unforced _ r (show Route.moveRow id ≠ .listTasks by simp)]
    simp only [serve]
    exact moveRow_asking id htimes hopens
  | closeSchedule | reportHealth | sendAsset => cases hasks

/-! ## Routes that do not -/

/-- An action that does the same whatever is kept of the tasks, and leaves that as it is. -/
def IsQuiet {α : Type} (action : Service → Served α) (s : Service) : Prop :=
  ∃ result session, ∀ c, action (s.keeping c) = (result, { s.keeping c with session := session })

/-- What changes nothing, with one result, is quiet. -/
theorem IsQuiet.of_unchanged {α : Type} {action : Service → Served α} (result : Except Fault α)
    (h : ∀ c, action (s.keeping c) = (result, s.keeping c)) : IsQuiet action s :=
  ⟨result, s.session, h⟩

theorem openSchedule_quiet (h : s.opensTasks = false) : IsQuiet openSchedule s := by
  unfold opensTasks at h
  cases hsession : s.session with
  | some session =>
    refine .of_unchanged (.ok session) fun c => ?_
    simp only [openSchedule, keeping_session, hsession]
  | none =>
    cases hload : s.store.loadSchedule with
    | error f =>
      refine .of_unchanged (.error f) fun c => ?_
      simp only [openSchedule, keeping_session, keeping_store, hsession, hload]
    | ok rows =>
      cases rows with
      | nil => rw [hsession, hload] at h; cases h
      | cons row rows =>
        let session := Session.start (row :: rows) s.settings.quietMs false
        refine ⟨.ok session, some session, fun c => ?_⟩
        simp only [openSchedule, keeping_session, keeping_store, hsession, hload]
        rfl

/-- A listing by no sort there is. -/
theorem listTasks_quiet (h : Criterion.named? (r.argOr "sort" "name-asc") = none) :
    IsQuiet (listTasks r) s := by
  refine .of_unchanged (.ok (.refusal 400 ("Unknown sort: " ++ r.argOr "sort" "name-asc")))
    fun c => ?_
  unfold listTasks
  dsimp only
  rw [h]

/-- A query by definitions that cannot be read. -/
theorem queryTasks_quiet {f : Fault} (h : s.wish (r.json?.getD .null) = .error f) :
    IsQuiet (queryTasks r) s := by
  refine .of_unchanged (.error f) fun c => ?_
  unfold queryTasks
  rw [keeping_wish, h]

theorem showSchedule_quiet (h : s.opensTasks = false) : IsQuiet showSchedule s := by
  obtain ⟨result, session, hopen⟩ := openSchedule_quiet h
  cases result with
  | error f => exact ⟨.error f, session, fun c => by rw [showSchedule, hopen]⟩
  | ok opened => exact ⟨_, session, fun c => by rw [showSchedule, hopen]⟩

/-- A move without times, or in a schedule that opens without the tasks. -/
theorem moveRow_quiet (id : String)
    (h : ((bodyTimes (bodyOf r)).isOk && s.opensTasks) = false) : IsQuiet (moveRow id r) s := by
  unfold moveRow
  cases htimes : bodyTimes (bodyOf r) with
  | error f =>
    by_cases hshape : f.isBadShape
    · exact .of_unchanged _ fun c => if_pos hshape
    · exact .of_unchanged _ fun c => if_neg hshape
  | ok times =>
    rw [htimes] at h
    obtain ⟨result, session, hopen⟩ := openSchedule_quiet (s := s) h
    cases result with
    | error f => exact ⟨.error f, session, fun c => by dsimp only; rw [hopen]⟩
    | ok opened =>
      let moved := opened.update id times.1 times.2
      exact ⟨moveReply id times.1 times.2 moved.1 moved.2, some moved.2,
        fun c => by dsimp only; rw [hopen]⟩

/-- **A route that does not ask for the tasks** does the same whatever is kept of them. -/
theorem serve_quiet (hasks : routeAsks? route r s = none) :
    IsQuiet (serve route r) s := by
  unfold routeAsks? at hasks
  unfold serve
  cases route with
  | listTasks => exact listTasks_quiet (Option.map_eq_none_iff.mp hasks)
  | queryTasks =>
    cases hwish : s.wish (r.json?.getD .null) with
    | error f => exact queryTasks_quiet hwish
    | ok w => rw [hwish] at hasks; cases hasks
  | showSchedule => exact showSchedule_quiet (by simpa using hasks)
  | moveRow id => exact moveRow_quiet id (by simpa using hasks)
  | closeSchedule => exact ⟨_, none, fun c => rfl⟩
  | reportHealth | sendAsset => exact .of_unchanged _ fun c => rfl
  | listCycles | drawChart kind => cases hasks

end

/-! ## Requests -/

variable {force : Bool}

theorem handle_of_route {route : Route}
    (hd : Destination.ofRequest r.path (upperText r.method) = .route route) (s : Service) :
    s.handle r =
      (headOnly (upperText r.method) (replyOf (s.serve route r).1), (s.serve route r).2) := by
  simp only [handle, hd]

/-- **A request that asks for the tasks is answered from them**: it gets what it would get had they
just been read. -/
theorem answer_of_tasks {tasks : List Task} (hasks : s.asks? r = some force)
    (h : (s.tasks force).1 = .ok tasks) :
    (s.handle r).1 = ((s.having tasks).handle r.unforced).1 := by
  unfold asks? at hasks
  split at hasks
  next route hd =>
    rw [handle_of_route hd, handle_of_route (r := r.unforced) hd, serve_asking hasks,
      withTasks_ok h]
    rfl
  next => cases hasks

/-- **A request that does not get the tasks it asks for fails, and changes nothing.** -/
theorem handle_error {f : Fault} (hasks : s.asks? r = some force)
    (h : (s.tasks force).1 = .error f) :
    s.handle r = (headOnly (upperText r.method) (.ofFault f), s) := by
  unfold asks? at hasks
  split at hasks
  next route hd =>
    rw [handle_of_route hd, serve_asking hasks, withTasks_error h]
    rfl
  next => cases hasks

/-- A request that asks for the tasks changes nothing but what is kept of them, and the schedule. -/
theorem handle_asking (hasks : s.asks? r = some force) :
    ∃ session, (s.handle r).2 = { (s.tasks force).2 with session := session } := by
  cases h : (s.tasks force).1 with
  | error f => exact ⟨s.session, by rw [handle_error hasks h, tasks_error h]⟩
  | ok tasks =>
    unfold asks? at hasks
    split at hasks
    next route hd => exact ⟨_, by rw [handle_of_route hd, serve_asking hasks, withTasks_ok h]⟩
    next => cases hasks

/-- **A request that does not ask for the tasks** is answered alike whatever is kept of them, and
keeps it. -/
theorem handle_quiet (hasks : s.asks? r = none) :
    ∃ reply session, ∀ c, (s.keeping c).handle r =
      (reply, { s.keeping c with session := session }) := by
  unfold asks? at hasks
  split at hasks
  next route hd =>
    obtain ⟨result, session, hserve⟩ := serve_quiet hasks
    exact ⟨headOnly (upperText r.method) (replyOf result), session,
      fun c => by rw [handle_of_route hd, hserve]⟩
  next hd =>
    unfold handle
    dsimp only
    cases hdest : Destination.ofRequest r.path (upperText r.method) with
    | route route => exact absurd hdest (hd route)
    | options | moved | wrongMethod | nowhere => exact ⟨_, s.session, fun c => rfl⟩

/-- A request for the list of the tasks. -/
def listing : Request := ⟨"GET", "/api/tasks", [], "", ""⟩

end Service

end Taskboard
