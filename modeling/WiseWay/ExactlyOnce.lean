import WiseWay.Changes
import WiseWay.Requests

/-! # Exactly-once acceptance

Requests of any users come in any order, and between them the draft of a dictionary is edited
and tested, selections are made and everything else of the store may change. -/
namespace ExactlyOnce

open Records Services Intake DictionaryService Requests
open Changes (Keyed Keyed.put accept_spec)

/-- One transaction. `elsewhere` is any change of what the sorting and the dictionary services
do not own, such as the work on a batch. -/
inductive Move where
  | request (x : Draw) (actor key : Text) (request : Request)
  | create (dictionaryId actor requestId : Text) (now : Time) (companyId name description : Text)
  | replaceDraft (actor requestId : Text) (now : Time) (dictionaryId : Text) (body : DraftBody)
  | restoreDraft (actor requestId : Text) (now : Time) (dictionaryId : Text)
      (expectedDraftRevision : ℕ) (versionId : Text)
  | simulate (simulationId actor requestId : Text) (now : Time) (dictionaryId : Text)
      (expectedDraftRevision : ℕ)
  | select (selectionId actor : Text) (now : Time) (request : SelectionRequest)
  | preview (previewId actor selectionId : Text) (now : Time)
  | elsewhere (store : Store) (pages : Pages) (tree : FileTree)

variable (v : Server)

/-- A transaction that fails leaves the store as it was. -/
def committed (site : Site) : Except Exn Store → Site
  | .ok s => { site with store := s }
  | .error _ => site

def simulated (x : Except Exn (Simulation × Table Simulation × Store)) (actor : Text) (now : Time)
    (site : Site) : Except Exn Site := do
  let (created, simulations, store) ← x
  let (_, pages) ←
    page v.payloadBytes now actor (.simulation created) created.rows.length site.pages
  return { site with simulation := simulations, store := store, pages := pages }

def apply (site : Site) : Move → Site
  | .request x actor key request => (execute v x actor key request site).2
  | .create dictionaryId actor requestId now companyId name description =>
    committed site (create v.layout v.casefold dictionaryId actor requestId now companyId name
      description site.store)
  | .replaceDraft actor requestId now dictionaryId body =>
    committed site (replaceDraft v.layout v.casefold site.tree actor requestId now dictionaryId body
      site.store)
  | .restoreDraft actor requestId now dictionaryId expected versionId =>
    committed site (restoreDraft v.casefold actor requestId now dictionaryId expected versionId
      site.store)
  | .simulate simulationId actor requestId now dictionaryId expected =>
    match simulated v (simulate v.layout v.casefold v.settings site.tree simulationId actor
      requestId now dictionaryId expected site.simulation site.store) actor now site with
    | .ok next => next
    | .error _ => site
  | .select selectionId actor now request =>
    -- A drawn identifier is new.
    if (site.store.selection[selectionId]?).isSome then site
    else committed site (selection v.layout v.casefold v.settings selectionId actor now request
      site.store)
  | .preview previewId actor selectionId now =>
    committed site (preview v.layout v.casefold v.settings site.tree previewId actor selectionId now
      site.store)
  | .elsewhere store pages tree =>
    { site with
      store := { store with
        selection := site.store.selection
        batch := site.store.batch
        dictionary := site.store.dictionary
        dictionaryVersion := site.store.dictionaryVersion }
      pages := pages
      tree := tree }

def run (moves : List Move) (site : Site) : Site := moves.foldl (apply v) site

/-- No request has come yet. The dictionaries are arbitrary, their active versions stored. -/
structure Start (site : Site) : Prop where
  batch : site.store.batch = ∅
  selection : site.store.selection = ∅
  simulation : site.simulation = ∅
  record : site.record = ∅
  authorised : site.authorised = []
  dictionary_key : Keyed Dictionary.dictionaryId site.store.dictionary
  active : ∀ (k : Text) (d : Dictionary) (ver : Text), site.store.dictionary[k]? = some d →
    d.activeVersionId = some ver → ∃ x, site.store.dictionaryVersion[ver]? = some x

/-- What holds of a state, of every request made in it and of whatever comes later. -/
structure Once (site : Site) : Prop where
  replayed : ∀ x actor key request response,
    (execute v x actor key request site).1 = .ok response →
    ∀ moves x' (request' : Request), request'.identity = request.identity →
      request'.body = request.body →
      execute v x' actor key request' (run v moves (execute v x actor key request site).2) =
        (.ok response, run v moves (execute v x actor key request site).2)
  reused : ∀ x actor key request response,
    (execute v x actor key request site).1 = .ok response →
    ∀ moves x' (request' : Request), request'.identity = request.identity →
      request'.body ≠ request.body →
      execute v x' actor key request' (run v moves (execute v x actor key request site).2) =
        (.error (apiError .idempotencyKeyReused),
          run v moves (execute v x actor key request site).2)
  failed : ∀ x actor key request e, (execute v x actor key request site).1 = .error e →
    (execute v x actor key request site).2 = site
  launched : ∀ (i j : Text) b c, site.store.batch[i]? = some b → site.store.batch[j]? = some c →
    b.selectionId = c.selectionId → i = j
  authorised : (site.authorised.map Prod.fst).Nodup

variable {v}

/-! What the transactions do. -/

theorem freshSimulation_ok {now : Time} {simulation : Simulation} {s : Store}
    (h : freshSimulation now simulation s = .ok ()) :
    ∃ d, s.dictionary[simulation.dictionaryId]? = some d ∧
      ruleSet s d.companyId = simulation.baseRuleSet ∧
      flattenedRules s d.companyId (some d) = .ok simulation.rulesDigest ∧
      readyItems s d.companyId = simulation.readyDigest := by
  obtain ⟨d, hd, h⟩ := bind_eq_ok.mp h
  obtain ⟨rules, hrules, h⟩ := bind_eq_ok.mp h
  split at h
  · cases h
  · rename_i hsame
    simp only [not_or, not_not] at hsame
    obtain ⟨_, _, hbase, rfl, hready⟩ := hsame
    exact ⟨d, require_eq_ok.mp hd, hbase, hrules, hready⟩

/-- A publication rests on a simulation that is fresh and without conflicts, and stores the
draft as a new version. -/
structure PublishedBy (versionId actor : Text) (now : Time) (body : PublishBody)
    (simulations : Table Simulation) (s t : Store) (dictionaryId : Text) (d : Dictionary)
    (simulation : Simulation) : Prop where
  dictionary : s.dictionary[dictionaryId]? = some d
  tested : simulations[body.simulationId]? = some simulation
  same : simulation.dictionaryId = d.dictionaryId
  fresh : freshSimulation now simulation s = .ok ()
  conflicts : simulation.counts.ruleConflicts = 0
  scenario : body.acknowledgeNoScenario = false → simulation.counts.noScenario = 0
  free : s.dictionaryVersion[versionId]? = none
  version : t.dictionaryVersion =
    s.dictionaryVersion.insert versionId (newVersion versionId actor body.comment now d)
  active : t.dictionary = s.dictionary.insert d.dictionaryId
    (activated (newVersion versionId actor body.comment now d) actor now d)
  selection : t.selection = s.selection
  batch : t.batch = s.batch
  queue : t.queue = s.queue

theorem publish_spec {layout : Layout} {tree : FileTree} {versionId actor requestId : Text}
    {now : Time} {dictionaryId : Text} {body : PublishBody} {simulations : Table Simulation}
    {s t : Store} {published : Published}
    (h : publish layout tree versionId actor requestId now dictionaryId body simulations s =
      .ok (published, t)) :
    ∃ d simulation,
      PublishedBy versionId actor now body simulations s t dictionaryId d simulation := by
  obtain ⟨d, hd, h⟩ := bind_eq_ok.mp h
  obtain ⟨⟨⟩, _, h⟩ := bind_eq_ok.mp h
  obtain ⟨simulation, hsimulation, h⟩ := bind_eq_ok.mp h
  by_cases hother : simulation.dictionaryId ≠ d.dictionaryId
  · simp [hother, bind, Except.bind] at h
  · simp only [hother, if_false] at h
    obtain ⟨⟨⟩, hfresh, h⟩ := bind_eq_ok.mp h
    by_cases hconflict : simulation.counts.ruleConflicts ≠ 0
    · simp [hconflict, bind, Except.bind] at h
    by_cases hscenario : simulation.counts.noScenario ≠ 0 ∧ body.acknowledgeNoScenario = false
    · simp [hconflict, hscenario, bind, Except.bind] at h
    simp only [hconflict, hscenario, if_false] at h
    obtain ⟨⟨⟩, _, h⟩ := bind_eq_ok.mp h
    by_cases hblank : ReturnTransactions.blank body.comment = true
    · simp [hblank, bind, Except.bind] at h
    simp only [hblank, Bool.false_eq_true, if_false] at h
    obtain ⟨versions, hnew, h⟩ := bind_eq_ok.mp h
    cases h
    obtain ⟨hfree, rfl⟩ := insertNew_eq_ok.mp hnew
    have hacknowledged : body.acknowledgeNoScenario = false → simulation.counts.noScenario = 0 :=
      fun hack => not_not.mp fun hne => hscenario ⟨hne, hack⟩
    exact ⟨d, simulation, require_eq_ok.mp hd, require_eq_ok.mp hsimulation, not_not.mp hother,
      hfresh, not_not.mp hconflict, hacknowledged, hfree, rfl, rfl, rfl, rfl, rfl⟩

/-- A draft operation rewrites one dictionary, but not what it has in force. A draft that names
a version is a copy of it. -/
structure Redrafted (s t : Store) : Prop where
  selection : t.selection = s.selection
  batch : t.batch = s.batch
  version : t.dictionaryVersion = s.dictionaryVersion
  dictionary : ∃ d name description rules based actor now,
    s.dictionary[d.dictionaryId]? = some d ∧
    t.dictionary = s.dictionary.insert d.dictionaryId
      (redrafted d name description rules based actor now) ∧
    ∀ u, based = some u → ∃ (k : Text) (ver : DictionaryVersion),
      s.dictionaryVersion[k]? = some ver ∧ ver.versionId = u ∧
      rules = ver.rules ∧ name = ver.name ∧ description = ver.description

theorem replaceDraft_spec {layout : Layout} {casefold : Text → Text} {tree : FileTree}
    {actor requestId : Text} {now : Time} {dictionaryId : Text} {body : DraftBody} {s t : Store}
    (hkeys : Keyed Dictionary.dictionaryId s.dictionary)
    (h : replaceDraft layout casefold tree actor requestId now dictionaryId body s = .ok t) :
    Redrafted s t := by
  obtain ⟨d, hd, h⟩ := bind_eq_ok.mp h
  obtain ⟨⟨⟩, _, h⟩ := bind_eq_ok.mp h
  obtain ⟨⟨⟩, _, h⟩ := bind_eq_ok.mp h
  obtain ⟨⟨⟩, _, h⟩ := bind_eq_ok.mp h
  cases h
  have hd := require_eq_ok.mp hd
  have hkey : d.dictionaryId = dictionaryId := hkeys _ d hd
  exact ⟨rfl, rfl, rfl, d, _, _, _, none, _, _, by rw [hkey]; exact hd, rfl, nofun⟩

theorem restoreDraft_spec {casefold : Text → Text} {actor requestId : Text} {now : Time}
    {dictionaryId : Text} {expected : ℕ} {versionId : Text} {s t : Store}
    (hkeys : Keyed Dictionary.dictionaryId s.dictionary)
    (h : restoreDraft casefold actor requestId now dictionaryId expected versionId s = .ok t) :
    Redrafted s t := by
  obtain ⟨d, hd, h⟩ := bind_eq_ok.mp h
  obtain ⟨⟨⟩, _, h⟩ := bind_eq_ok.mp h
  obtain ⟨version, hversion, h⟩ := bind_eq_ok.mp h
  by_cases hother : version.dictionaryId ≠ d.dictionaryId
  · simp [hother, bind, Except.bind] at h
  simp only [hother, if_false] at h
  obtain ⟨⟨⟩, _, h⟩ := bind_eq_ok.mp h
  cases h
  have hd := require_eq_ok.mp hd
  have hkey : d.dictionaryId = dictionaryId := hkeys _ d hd
  refine ⟨rfl, rfl, rfl, d, _, _, _, some version.versionId, _, _, by rw [hkey]; exact hd, rfl,
    fun u hu => ?_⟩
  exact ⟨versionId, version, require_eq_ok.mp hversion, Option.some.inj hu, rfl, rfl, rfl⟩

theorem create_spec {layout : Layout} {casefold : Text → Text}
    {dictionaryId actor requestId : Text} {now : Time} {companyId name description : Text}
    {s t : Store}
    (h : create layout casefold dictionaryId actor requestId now companyId name description s =
      .ok t) :
    ∃ d : Dictionary, d.dictionaryId = dictionaryId ∧ d.activeVersionId = none ∧
      d.draft.basedOnVersionId = none ∧ s.dictionary[dictionaryId]? = none ∧
      t.dictionary = s.dictionary.insert dictionaryId d ∧
      t.dictionaryVersion = s.dictionaryVersion ∧ t.selection = s.selection ∧
      t.batch = s.batch := by
  obtain ⟨company, _, h⟩ := bind_eq_ok.mp h
  obtain ⟨⟨⟩, _, h⟩ := bind_eq_ok.mp h
  obtain ⟨dictionaries, hnew, h⟩ := bind_eq_ok.mp h
  cases h
  obtain ⟨hfree, rfl⟩ := insertNew_eq_ok.mp hnew
  exact ⟨_, rfl, rfl, rfl, hfree, rfl, rfl, rfl, rfl⟩

theorem simulate_spec {layout : Layout} {casefold : Text → Text} {settings : Settings}
    {tree : FileTree} {simulationId actor requestId : Text} {now : Time} {dictionaryId : Text}
    {expected : ℕ} {simulations simulations' : Table Simulation} {s t : Store}
    {created : Simulation}
    (h : simulate layout casefold settings tree simulationId actor requestId now dictionaryId
      expected simulations s = .ok (created, simulations', t)) :
    (∃ d, s.dictionary[dictionaryId]? = some d ∧ created.dictionaryId = d.dictionaryId ∧
      created.baseRuleSet = ruleSet s d.companyId ∧
      plan layout casefold tree created.readyDigest created.rulesDigest d.companyId =
        .ok created.rows ∧ created.counts = Rules.planCounts created.rows) ∧
      simulations[simulationId]? = none ∧ simulations' = simulations.insert simulationId created ∧
      t.selection = s.selection ∧ t.batch = s.batch ∧ t.dictionary = s.dictionary ∧
      t.dictionaryVersion = s.dictionaryVersion := by
  obtain ⟨d, hd, h⟩ := bind_eq_ok.mp h
  obtain ⟨⟨⟩, _, h⟩ := bind_eq_ok.mp h
  obtain ⟨rules, _, h⟩ := bind_eq_ok.mp h
  obtain ⟨rows, hrows, h⟩ := bind_eq_ok.mp h
  obtain ⟨next, hnew, h⟩ := bind_eq_ok.mp h
  cases h
  obtain ⟨hfree, rfl⟩ := insertNew_eq_ok.mp hnew
  exact ⟨⟨d, require_eq_ok.mp hd, rfl, rfl, hrows, rfl⟩, hfree, rfl, rfl, rfl, rfl, rfl⟩

/-! The invariants. -/

/-- A batch and the selection that it has launched name each other. -/
structure Launched (s : Store) : Prop where
  selection_key : Keyed Selection.selectionId s.selection
  launched : ∀ (id : Text) b, s.batch[id]? = some b → ∃ found,
    s.selection[b.selectionId]? = some found ∧ found.batchId = some id

/-- Versions are never dropped, and a simulation that has authorised one knows a rule set that
cannot come back. -/
structure Versioned (site : Site) : Prop where
  dictionary_key : Keyed Dictionary.dictionaryId site.store.dictionary
  active : ∀ (k : Text) (d : Dictionary) (ver : Text), site.store.dictionary[k]? = some d →
    d.activeVersionId = some ver → ∃ x, site.store.dictionaryVersion[ver]? = some x
  based : ∀ (k : Text) (simulation : Simulation) (d ver : Text),
    site.simulation[k]? = some simulation → (d, ver) ∈ simulation.baseRuleSet.members →
    ∃ x, site.store.dictionaryVersion[ver]? = some x
  spent : ∀ k ∈ site.authorised.map Prod.fst, ∃ (simulation : Simulation) (d : Dictionary)
    (ver : Text), site.simulation[k]? = some simulation ∧
      site.store.dictionary[simulation.dictionaryId]? = some d ∧ d.activeVersionId = some ver ∧
      (d.dictionaryId, ver) ∉ simulation.baseRuleSet.members
  once : (site.authorised.map Prod.fst).Nodup

theorem mem_ruleSet {s : Store} {companyId d ver : Text} :
    (d, ver) ∈ (ruleSet s companyId).members ↔ ∃ (k : Text) (found : Dictionary),
      s.dictionary[k]? = some found ∧ found.companyId = companyId ∧
      found.dictionaryId = d ∧ found.activeVersionId = some ver := by
  unfold ruleSet
  simp only [List.mem_filterMap, mem_list]
  constructor
  · rintro ⟨found, ⟨k, hk⟩, hmem⟩
    split at hmem
    · rename_i hcompany
      obtain ⟨active, hactive, heq⟩ := Option.map_eq_some_iff.mp hmem
      cases heq
      exact ⟨k, found, hk, hcompany, rfl, hactive⟩
    · cases hmem
  · rintro ⟨k, found, hk, hcompany, rfl, hactive⟩
    exact ⟨found, ⟨k, hk⟩, by simp [hcompany, hactive]⟩

theorem Launched.same {s t : Store} (h : Launched s) (hselection : t.selection = s.selection)
    (hbatch : t.batch = s.batch) : Launched t := by
  refine ⟨hselection ▸ h.selection_key, fun id b hb => ?_⟩
  rw [hbatch] at hb
  rw [hselection]
  exact h.launched id b hb

theorem Launched.put {s t : Store} (h : Launched s) (found : Selection)
    (hselection : t.selection = s.selection.insert found.selectionId found)
    (hfree : ∀ old, s.selection[found.selectionId]? = some old → old.batchId = none)
    (hbatch : ∀ (id : Text) b, t.batch[id]? = some b → s.batch[id]? = some b ∨
      b.selectionId = found.selectionId ∧ found.batchId = some id) : Launched t := by
  refine ⟨hselection ▸ h.selection_key.put rfl, fun id b hb => ?_⟩
  rw [hselection, get_put]
  rcases hbatch id b hb with hb | ⟨hsame, hlaunched⟩
  · obtain ⟨old, hold, hid⟩ := h.launched id b hb
    rw [if_neg]
    · exact ⟨old, hold, hid⟩
    · intro heq
      rw [← heq] at hold
      cases hid.symm.trans (hfree old hold)
  · exact ⟨found, if_pos hsame.symm, hlaunched⟩

theorem launched_accept {layout : Layout} {casefold : Text → Text} {tree : FileTree}
    {drawn : Draws} {now : Time} {actor requestId : Text} {request : BatchRequest} {s t : Store}
    (h : Launched s)
    (ha : accept layout casefold tree drawn now actor requestId request s = .ok t) :
    Launched t := by
  obtain ⟨found, b, hfound, hnone, hfree, hid, hselection, hbatch, hput, _, _⟩ := accept_spec ha
  have hkey : found.selectionId = request.selectionId := h.selection_key _ found hfound
  refine h.put { found with batchId := some drawn.batch } hput (fun old hold => ?_)
    fun id c hc => ?_
  · rw [← hkey] at hfound
    obtain rfl : found = old := Option.some.inj (hfound.symm.trans hold)
    exact hnone
  · rw [hbatch, get_put] at hc
    split at hc
    · rename_i hdrawn
      cases hc
      exact .inr ⟨hselection, congrArg some hdrawn⟩
    · exact .inl hc

theorem Versioned.same {site next : Site} (h : Versioned site)
    (hdictionary : next.store.dictionary = site.store.dictionary)
    (hversion : next.store.dictionaryVersion = site.store.dictionaryVersion)
    (hsimulation : next.simulation = site.simulation)
    (hauthorised : next.authorised = site.authorised) : Versioned next := by
  refine ⟨?_, ?_, ?_, ?_, ?_⟩
  · rw [hdictionary]; exact h.dictionary_key
  · rw [hdictionary, hversion]; exact h.active
  · rw [hsimulation, hversion]; exact h.based
  · rw [hauthorised, hsimulation, hdictionary]; exact h.spent
  · rw [hauthorised]; exact h.once

/-- A dictionary is rewritten under the version it has in force, or is new and has none. -/
theorem Versioned.put {site next : Site} {d : Dictionary} (h : Versioned site)
    (hdictionary : next.store.dictionary = site.store.dictionary.insert d.dictionaryId d)
    (hversion : next.store.dictionaryVersion = site.store.dictionaryVersion)
    (hsimulation : next.simulation = site.simulation)
    (hauthorised : next.authorised = site.authorised)
    (hd : (∃ old, site.store.dictionary[d.dictionaryId]? = some old ∧
        d.activeVersionId = old.activeVersionId) ∨
      site.store.dictionary[d.dictionaryId]? = none ∧ d.activeVersionId = none) :
    Versioned next := by
  refine ⟨hdictionary ▸ h.dictionary_key.put rfl, fun k c ver hc hactive => ?_, ?_,
    fun k hk => ?_, ?_⟩
  · rw [hversion]
    rw [hdictionary, get_put] at hc
    split at hc
    · cases hc
      rcases hd with ⟨old, hold, hsame⟩ | ⟨_, hnone⟩
      · exact h.active _ old ver hold (hsame ▸ hactive)
      · cases hnone.symm.trans hactive
    · exact h.active k c ver hc hactive
  · rw [hsimulation, hversion]; exact h.based
  · rw [hauthorised] at hk
    obtain ⟨simulation, c, ver, hs, hc, hactive, hfresh⟩ := h.spent k hk
    rw [hsimulation, hdictionary]
    have hkey : c.dictionaryId = simulation.dictionaryId := h.dictionary_key _ c hc
    by_cases hsame : d.dictionaryId = simulation.dictionaryId
    · refine ⟨simulation, d, ver, hs, by rw [get_put, if_pos hsame], ?_, ?_⟩
      · rcases hd with ⟨old, hold, hold'⟩ | ⟨hnone, _⟩
        · rw [hsame, hc] at hold
          cases hold
          exact hold'.trans hactive
        · rw [hsame, hc] at hnone
          cases hnone
      · rw [hsame, ← hkey]
        exact hfresh
    · exact ⟨simulation, c, ver, hs, by rw [get_put, if_neg hsame]; exact hc, hactive, hfresh⟩
  · rw [hauthorised]; exact h.once

theorem versioned_redrafted {site : Site} {t : Store} (h : Versioned site)
    (hr : Redrafted site.store t) : Versioned { site with store := t } := by
  obtain ⟨_, _, hversion, d, name, description, rules, based, actor, now, hd, hput, _⟩ := hr
  exact h.put (d := redrafted d name description rules based actor now) hput hversion rfl rfl
    (.inl ⟨d, hd, rfl⟩)

theorem versioned_simulated {site : Site} {simulationId companyId : Text} {created : Simulation}
    {t : Store} {pages : Pages} (h : Versioned site)
    (hbase : created.baseRuleSet = ruleSet site.store companyId)
    (hfree : site.simulation[simulationId]? = none)
    (hdictionary : t.dictionary = site.store.dictionary)
    (hversion : t.dictionaryVersion = site.store.dictionaryVersion) :
    Versioned { site with
      simulation := site.simulation.insert simulationId created, store := t, pages := pages } := by
  refine ⟨?_, ?_, fun k simulation d ver hk hmem => ?_, fun k hk => ?_, h.once⟩
  · simp only [hdictionary]; exact h.dictionary_key
  · simp only [hdictionary, hversion]; exact h.active
  · simp only [hversion]
    simp only [get_put] at hk
    split at hk
    · cases hk
      rw [hbase, mem_ruleSet] at hmem
      obtain ⟨j, found, hfound, _, _, hactive⟩ := hmem
      exact h.active j found ver hfound hactive
    · exact h.based k simulation d ver hk hmem
  · obtain ⟨simulation, d, ver, hs, hrest⟩ := h.spent k hk
    refine ⟨simulation, d, ver, ?_, by simpa only [hdictionary] using hrest⟩
    simp only [get_put]
    rw [if_neg]
    · exact hs
    · rintro rfl
      cases hfree.symm.trans hs

theorem spent_stale {site : Site} (h : Versioned site) {k : Text} {simulation : Simulation}
    {now : Time} (hk : site.simulation[k]? = some simulation)
    (hfresh : freshSimulation now simulation site.store = .ok ()) :
    k ∉ site.authorised.map Prod.fst := by
  intro hspent
  obtain ⟨_, d, ver, hs, hd, hactive, hnew⟩ := h.spent k hspent
  obtain rfl := Option.some.inj (hk.symm.trans hs)
  obtain ⟨d', hd', hbase, _⟩ := freshSimulation_ok hfresh
  obtain rfl := Option.some.inj (hd.symm.trans hd')
  exact hnew (hbase ▸ mem_ruleSet.mpr ⟨_, d, hd, rfl, rfl, hactive⟩)

theorem versioned_published {site : Site} {versionId actor requestId dictionaryId : Text}
    {layout : Layout} {now : Time} {body : PublishBody} {published : Published} {t : Store}
    (h : Versioned site) (hp : publish layout site.tree versionId actor requestId now dictionaryId
      body site.simulation site.store = .ok (published, t)) :
    Versioned { site with
      store := t, authorised := site.authorised ++ [(body.simulationId, versionId)] } := by
  obtain ⟨d, simulation, hpublished⟩ := publish_spec hp
  obtain ⟨hd, hs, hsame, hfresh, _, _, hfree, hversion, hdictionary, _, _, _⟩ := hpublished
  have hkey : d.dictionaryId = dictionaryId := h.dictionary_key _ d hd
  have hstays : ∀ (ver : Text), (∃ x, site.store.dictionaryVersion[ver]? = some x) →
      ∃ x, t.dictionaryVersion[ver]? = some x := by
    rintro ver ⟨x, hx⟩
    rw [hversion, get_put]
    split
    · exact ⟨_, rfl⟩
    · exact ⟨x, hx⟩
  -- No simulation knows the new version.
  have hunknown : ∀ (k : Text) (old : Simulation), site.simulation[k]? = some old →
      (d.dictionaryId, versionId) ∉ old.baseRuleSet.members := by
    intro k old hk hmem
    obtain ⟨x, hx⟩ := h.based k old _ _ hk hmem
    cases hfree.symm.trans hx
  have hspent := spent_stale h hs hfresh
  refine ⟨?_, fun k c ver hc hactive => ?_, fun k old e ver hk hmem => ?_, fun k hk => ?_, ?_⟩
  · simp only [hdictionary]
    exact h.dictionary_key.put rfl
  · simp only [hdictionary, get_put] at hc
    split at hc
    · cases hc
      obtain rfl : versionId = ver := Option.some.inj hactive
      refine ⟨newVersion versionId actor body.comment now d, ?_⟩
      simp only [hversion, get_put, if_true]
    · exact hstays ver (h.active k c ver hc hactive)
  · exact hstays ver (h.based k old e ver hk hmem)
  · simp only [List.map_append, List.map_cons, List.map_nil, List.mem_append,
      List.mem_singleton] at hk
    simp only [hdictionary]
    rcases hk with hk | rfl
    · obtain ⟨old, c, ver, hold, hc, hactive, hnew⟩ := h.spent k hk
      have hckey : c.dictionaryId = old.dictionaryId := h.dictionary_key _ c hc
      by_cases hdict : d.dictionaryId = old.dictionaryId
      · exact ⟨old, activated (newVersion versionId actor body.comment now d) actor now d,
          versionId, hold, by rw [get_put, if_pos hdict], rfl, hunknown k old hold⟩
      · exact ⟨old, c, ver, hold, by rw [get_put, if_neg hdict]; exact hc, hactive, hnew⟩
    · exact ⟨simulation, activated (newVersion versionId actor body.comment now d) actor now d,
        versionId, hs, by rw [get_put, if_pos hsame.symm], rfl, hunknown _ simulation hs⟩
  · simp only [List.map_append, List.map_cons, List.map_nil]
    rw [List.nodup_append]
    refine ⟨h.once, List.nodup_singleton _, fun a ha b hb heq => ?_⟩
    rw [List.mem_singleton] at hb
    exact hspent (hb ▸ heq ▸ ha)

/-! Runs. -/

structure Sound (site : Site) : Prop extends Launched site.store, Versioned site

theorem start_sound {site : Site} (h : Start site) : Sound site := by
  refine ⟨⟨?_, ?_⟩, h.dictionary_key, h.active, ?_, ?_, ?_⟩ <;>
    simp [Keyed, h.selection, h.batch, h.simulation, h.authorised]

theorem dispatch_sound {v : Server} {x : Draw} {actor : Text} {request : Request}
    {site next : Site} {response : Response} (h : Sound site)
    (hd : dispatch v x actor request site = .ok (response, next)) : Sound next := by
  cases request with
  | createSortingBatch body =>
    obtain ⟨t, ht, hd⟩ := bind_eq_ok.mp hd
    obtain ⟨view, _, hd⟩ := bind_eq_ok.mp hd
    obtain ⟨⟨cursor, pages⟩, _, hd⟩ := bind_eq_ok.mp hd
    cases hd
    obtain ⟨_, _, _, _, _, _, _, _, _, hdictionary, hversion⟩ := accept_spec ht
    exact ⟨launched_accept h.toLaunched ht, h.toVersioned.same hdictionary hversion rfl rfl⟩
  | publishDictionary dictionaryId body =>
    obtain ⟨⟨published, t⟩, ht, hd⟩ := bind_eq_ok.mp hd
    cases hd
    obtain ⟨d, simulation, hp⟩ := publish_spec ht
    exact ⟨h.toLaunched.same hp.selection hp.batch, versioned_published h.toVersioned ht⟩

theorem dispatch_record {v : Server} {x : Draw} {actor : Text} {request : Request}
    {site next : Site} {response : Response}
    (hd : dispatch v x actor request site = .ok (response, next)) : next.record = site.record := by
  cases request with
  | createSortingBatch body =>
    obtain ⟨t, _, hd⟩ := bind_eq_ok.mp hd
    obtain ⟨view, _, hd⟩ := bind_eq_ok.mp hd
    obtain ⟨⟨cursor, pages⟩, _, hd⟩ := bind_eq_ok.mp hd
    cases hd
    rfl
  | publishDictionary dictionaryId body =>
    obtain ⟨⟨published, t⟩, _, hd⟩ := bind_eq_ok.mp hd
    cases hd
    rfl

/-- A request fails and changes nothing, repeats its record, or acts and is recorded. -/
theorem execute_cases (v : Server) (x : Draw) (actor key : Text) (request : Request)
    (site : Site) :
    (∃ e, execute v x actor key request site = (.error e, site)) ∨
    (∃ previous, site.record[recordId actor key request]? = some previous ∧
      previous.body = request.body ∧ v.conforms request previous.response = true ∧
      execute v x actor key request site = (.ok previous.response, site)) ∨
    (∃ response next, site.record[recordId actor key request]? = none ∧
      dispatch v x actor request site = .ok (response, next) ∧
      v.conforms request response = true ∧
      execute v x actor key request site = (.ok response, { next with
        record := next.record.insert (recordId actor key request) ⟨request.body, response⟩ })) := by
  unfold execute idempotent
  cases hr : site.record[recordId actor key request]? with
  | some previous =>
    by_cases hbody : previous.body = request.body
    · simp only [hbody, ne_eq, not_true_eq_false, if_false]
      by_cases hc : v.conforms request previous.response = true
      · exact .inr (.inl ⟨previous, rfl, hbody, hc, by simp [hc]⟩)
      · exact .inl ⟨.failure, by simp [hc]⟩
    · exact .inl ⟨apiError .idempotencyKeyReused, by simp [hbody]⟩
  | none =>
    cases hd : dispatch v x actor request site with
    | error e => exact .inl ⟨e, by simp [bind, Except.bind]⟩
    | ok r =>
      by_cases hc : v.conforms request r.1 = true
      · refine .inr (.inr ⟨r.1, r.2, rfl, rfl, hc, ?_⟩)
        simp [bind, Except.bind, pure, Except.pure, hc]
      · exact .inl ⟨.failure, by simp [bind, Except.bind, pure, Except.pure, hc]⟩

theorem apply_sound {site : Site} (h : Sound site) (move : Move) : Sound (apply v site move) := by
  cases move with
  | request x actor key request =>
    simp only [apply]
    rcases execute_cases v x actor key request site with ⟨e, he⟩ | ⟨_, _, _, _, he⟩ |
      ⟨response, next, _, hd, _, he⟩
    · rw [he]
      exact h
    · rw [he]
      exact h
    · have hnext := dispatch_sound h hd
      rw [he]
      exact ⟨hnext.toLaunched, hnext.toVersioned.same rfl rfl rfl rfl⟩
  | create dictionaryId actor requestId now companyId name description =>
    simp only [apply, committed]
    split
    · rename_i t ht
      obtain ⟨d, rfl, hnone, _, hfree, hput, hversion, hselection, hbatch⟩ := create_spec ht
      exact ⟨h.toLaunched.same hselection hbatch,
        h.toVersioned.put hput hversion rfl rfl (.inr ⟨hfree, hnone⟩)⟩
    · exact h
  | replaceDraft actor requestId now dictionaryId body =>
    simp only [apply, committed]
    split
    · rename_i t ht
      have hr := replaceDraft_spec h.dictionary_key ht
      exact ⟨h.toLaunched.same hr.selection hr.batch, versioned_redrafted h.toVersioned hr⟩
    · exact h
  | restoreDraft actor requestId now dictionaryId expected versionId =>
    simp only [apply, committed]
    split
    · rename_i t ht
      have hr := restoreDraft_spec h.dictionary_key ht
      exact ⟨h.toLaunched.same hr.selection hr.batch, versioned_redrafted h.toVersioned hr⟩
    · exact h
  | simulate simulationId actor requestId now dictionaryId expected =>
    simp only [apply]
    split
    · rename_i next hnext
      obtain ⟨⟨created, simulations, t⟩, ht, hnext⟩ := bind_eq_ok.mp hnext
      obtain ⟨⟨cursor, pages⟩, _, hnext⟩ := bind_eq_ok.mp hnext
      cases hnext
      obtain ⟨⟨d, _, _, hbase, _, _⟩, hfree, rfl, hselection, hbatch, hdictionary, hversion⟩ :=
        simulate_spec ht
      exact ⟨h.toLaunched.same hselection hbatch,
        versioned_simulated h.toVersioned hbase hfree hdictionary hversion⟩
    · exact h
  | select selectionId actor now request =>
    simp only [apply]
    split
    · exact h
    · rename_i hfree
      simp only [committed]
      split
      · rename_i t ht
        obtain ⟨created, rfl, rfl⟩ := Changes.selection_frame ht
        refine ⟨h.toLaunched.put _ rfl (fun old hold => ?_) fun id b hb => .inl hb,
          h.toVersioned.same rfl rfl rfl rfl⟩
        simp [hold] at hfree
      · exact h
  | preview previewId actor selectionId now =>
    simp only [apply, committed]
    split
    · rename_i t ht
      obtain ⟨created, rfl⟩ := Changes.preview_frame ht
      exact ⟨h.toLaunched.same rfl rfl, h.toVersioned.same rfl rfl rfl rfl⟩
    · exact h
  | elsewhere store pages tree =>
    exact ⟨h.toLaunched.same rfl rfl, h.toVersioned.same rfl rfl rfl rfl⟩

theorem run_sound {site : Site} (h : Sound site) (moves : List Move) :
    Sound (run v moves site) := by
  induction moves generalizing site with
  | nil => exact h
  | cons move moves ih => exact ih (apply_sound h move)

theorem record_apply {site : Site} {k : List Text} {r : Record} (h : site.record[k]? = some r)
    (move : Move) : (apply v site move).record[k]? = some r := by
  cases move with
  | request x actor key request =>
    simp only [apply]
    rcases execute_cases v x actor key request site with ⟨e, he⟩ | ⟨_, _, _, _, he⟩ |
      ⟨response, next, hnone, hd, _, he⟩
    · rw [he]
      exact h
    · rw [he]
      exact h
    · rw [he]
      simp only [dispatch_record hd, Std.ExtTreeMap.getElem?_insert,
        Std.LawfulEqOrd.compare_eq_iff_eq]
      rw [if_neg]
      · exact h
      · rintro rfl
        cases hnone.symm.trans h
  | simulate simulationId actor requestId now dictionaryId expected =>
    simp only [apply]
    split
    · rename_i next hnext
      obtain ⟨⟨created, simulations, t⟩, _, hnext⟩ := bind_eq_ok.mp hnext
      obtain ⟨⟨cursor, pages⟩, _, hnext⟩ := bind_eq_ok.mp hnext
      cases hnext
      exact h
    · exact h
  | select selectionId actor now request =>
    simp only [apply]
    split
    · exact h
    · unfold committed
      split <;> exact h
  | elsewhere store pages tree => exact h
  | _ =>
    simp only [apply]
    unfold committed
    split <;> exact h

theorem record_run {site : Site} {k : List Text} {r : Record} (h : site.record[k]? = some r)
    (moves : List Move) : (run v moves site).record[k]? = some r := by
  induction moves generalizing site with
  | nil => exact h
  | cons move moves ih => exact ih (record_apply h move)

theorem execute_record {site : Site} {x : Draw} {actor key : Text} {request : Request}
    {response : Response} (h : (execute v x actor key request site).1 = .ok response) :
    (execute v x actor key request site).2.record[recordId actor key request]? =
      some ⟨request.body, response⟩ ∧ v.conforms request response = true := by
  rcases execute_cases v x actor key request site with ⟨e, he⟩ | ⟨previous, hp, hbody, hc, he⟩ |
    ⟨response', next, _, _, hc, he⟩
  · rw [he] at h
    cases h
  · rw [he] at h ⊢
    cases h
    exact ⟨by rw [hp, ← hbody], hc⟩
  · rw [he] at h ⊢
    cases h
    exact ⟨by simp, hc⟩

theorem execute_recorded {site : Site} {x : Draw} {actor key : Text} {request : Request}
    {response : Response}
    (h : site.record[recordId actor key request]? = some ⟨request.body, response⟩)
    (hc : v.conforms request response = true) :
    execute v x actor key request site = (.ok response, site) := by
  simp [execute, idempotent, h, hc]

theorem execute_reused {site : Site} {x : Draw} {actor key : Text} {request : Request}
    {previous : Record} (h : site.record[recordId actor key request]? = some previous)
    (hbody : previous.body ≠ request.body) :
    execute v x actor key request site = (.error (apiError .idempotencyKeyReused), site) := by
  simp [execute, idempotent, h, hbody]

theorem request_ext {a b : Request} (hidentity : a.identity = b.identity)
    (hbody : a.body = b.body) : a = b := by
  cases a with
  | createSortingBatch body =>
    cases b with
    | createSortingBatch body' => rw [Body.batch.inj hbody]
    | publishDictionary d body' => cases hbody
  | publishDictionary d body =>
    cases b with
    | createSortingBatch body' => cases hbody
    | publishDictionary d' body' =>
      rw [Body.publish.inj hbody]
      have h := List.append_cancel_right hidentity
      rw [List.append_cancel_left h]

/-- Acceptance is exactly once after every sequence of transactions. -/
theorem exactly_once {site : Site} (h : Start site) (moves : List Move) :
    Once v (run v moves site) := by
  have hsound := run_sound (v := v) (start_sound h) moves
  generalize run v moves site = now at hsound
  refine ⟨fun x actor key request response hok later x' request' hidentity hbody => ?_,
    fun x actor key request response hok later x' request' hidentity hbody => ?_,
    fun x actor key request e he => ?_, fun i j b c hb hc hsame => ?_, hsound.once⟩
  · obtain rfl := request_ext hidentity hbody
    obtain ⟨hrecord, hconforms⟩ := execute_record hok
    exact execute_recorded (record_run hrecord later) hconforms
  · obtain ⟨hrecord, _⟩ := execute_record hok
    have hid : recordId actor key request' = recordId actor key request := by
      rw [recordId, recordId, hidentity]
    exact execute_reused (hid ▸ record_run hrecord later) (Ne.symm hbody)
  · rcases execute_cases v x actor key request now with ⟨e', he'⟩ | ⟨_, _, _, _, he'⟩ |
      ⟨_, _, _, _, _, he'⟩
    · rw [he']
    · rw [he'] at he
      cases he
    · rw [he'] at he
      cases he
  · obtain ⟨found, hfound, hi⟩ := hsound.launched i b hb
    obtain ⟨found', hfound', hj⟩ := hsound.launched j c hc
    rw [hsame, hfound'] at hfound
    cases hfound
    exact Option.some.inj (hi.symm.trans hj)

/-! The small service with one ready file. -/

def smallServer : Server where
  layout := SortingSystem.smallLayout
  casefold := id
  settings := ⟨1000, 10, 10⟩
  conforms _ _ := true
  payloadBytes _ := 0

def readyItem : QueueItem where
  itemId := ['i']
  itemRevision := 1
  companyId := "co".toList
  incomingSourceId := "in".toList
  sourceName := "In".toList
  source := ⟨"in".toList, "a.t".toList, "D:/in/a.t".toList⟩
  filename := "a.t".toList
  sizeBytes := 3
  modifiedAt := 0
  status := .ready
  reasonCode := none
  selectable := true
  activeAttemptId := none
  fingerprint := ⟨1, 7, 3, 0⟩
  observedAt := 0
  departed := false

def smallSite : Site where
  store := { (SortingSystem.smallWorld true []).store with
    queue := (∅ : Table QueueItem).insert ['i'] readyItem }
  simulation := ∅
  record := ∅
  pages := ⟨[], []⟩
  tree := SortingSystem.smallTree [("in/a.t", ⟨1, 7, 3, 0⟩)]
  authorised := []

theorem smallSite_start : Start smallSite := by
  have hd : ∀ (k : Text) (d : Dictionary), smallSite.store.dictionary[k]? = some d →
      k = ['d'] ∧ d = SortingSystem.smallDictionary := by
    intro k d hk
    simp only [smallSite, SortingSystem.smallWorld, if_true, get_put] at hk
    split at hk
    · rename_i hkey
      exact ⟨hkey.symm, (Option.some.inj hk).symm⟩
    · simp at hk
  refine ⟨rfl, rfl, rfl, rfl, rfl, fun k d hk => ?_, fun k d ver hk hactive => ?_⟩
  · obtain ⟨rfl, rfl⟩ := hd k d hk
    rfl
  · obtain ⟨_, rfl⟩ := hd k d hk
    cases hactive
    exact ⟨SortingSystem.smallVersion, by simp [smallSite, SortingSystem.smallWorld]⟩

/-- The file is selected and its batch accepted; a simulation is made and authorises a version. -/
def smallMoves : List Move :=
  [.select ['s'] ['u'] 0 ⟨"co".toList, .explicit [(['i'], 1)]⟩,
    .request ⟨1, SortingSystem.smallDraws ['b'] ['t'], ['w'], ['q']⟩ ['u'] ['k']
      (.createSortingBatch ⟨['s'], none⟩),
    .simulate ['m'] ['u'] ['q'] 2 ['d'] 1,
    .request ⟨3, SortingSystem.smallDraws ['c'] ['y'], ['w'], ['q']⟩ ['u'] ['k']
      (.publishDictionary ['d'] ⟨1, ['m'], false, ['o']⟩)]

theorem exactly_once_small :
    (run smallServer smallMoves smallSite).store.batch.size = 1 ∧
    (run smallServer smallMoves smallSite).authorised = [(['m'], ['w'])] ∧
    Once smallServer (run smallServer smallMoves smallSite) :=
  ⟨by decide +kernel, by decide +kernel, exactly_once smallSite_start smallMoves⟩

end ExactlyOnce
