import PieAgent.Proofs.Session.BranchedEntries

/-! # Extracting a branch into a session of its own

`createBranchedSession` copies the entries from the root to a leaf without their labels and keeps the parents
they had. An entry whose parent was a label then has no parent, so the conversation before it is lost. The
context is kept exactly when the entries that are lost in this way add nothing to it.
-/

namespace PieAgent.Soundness

open JavaScript PieAgent.Model.Transcript PieAgent.Proofs
open PieAgent.Model (textField?)

/-- The ids that an operation draws are unused; a file that is opened holds a tree that was built so. -/
def UnusedIds (workspace : Workspace) : Operation → Prop
  | .append _ id _ _ | .appendLabelChange _ _ id _ _ | .branchWithSummary _ _ _ _ id _ _ =>
    UnusedId workspace.manager.entries id
  | .createBranchedSession _ _ _ labelIds =>
    labelIds.Injective ∧ ∀ i, UnusedId workspace.manager.entries (labelIds i)
  | .setSessionFile sessionFile _ _ ids => ∀ content loaded, workspace.files.get? sessionFile = some content →
      loadEntriesFromFile sessionFile content = .ok (some loaded) →
        SessionTree (migrateToCurrentVersion ids loaded.header loaded.entries).entries none
  | .newSession .. | .branch _ | .resetLeaf => True

/-- The workspaces that operations build from a manager without a session. -/
inductive Built : Workspace → Prop
  | blank (files : Files) (cwd sessionDir : JsString) (persist : Bool) : Built ⟨.blank cwd sessionDir persist, files⟩
  | step {workspace : Workspace} {operation : Operation} : Built workspace → UnusedIds workspace operation →
      Built (workspace.perform operation)

instance (entries : List Json) (id : JsString) : Decidable (UnusedId entries id) :=
  inferInstanceAs (Decidable (_ ∧ _ ∧ _))

section Tree

variable {workspace : Workspace}

/-- The tree of a workspace. -/
def HoldsTree (workspace : Workspace) : Prop := SessionTree workspace.manager.entries workspace.manager.leafId

private theorem mem_ids {entries : List Json} {id : JsString} (known : (byId entries id).isNone = false) :
    id ∈ entries.map entryId :=
  isSome_byId.mp (Option.isNone_eq_false_iff.mp known)

private theorem appendEntry_tree (tree : HoldsTree workspace) (entry : Json) (write : WriteOutcome)
    (unused : UnusedId workspace.manager.entries (entryId entry))
    (below : ∀ above, parentId entry = some above → above ∈ workspace.manager.entries.map entryId) :
    HoldsTree (workspace.appendEntry entry write).1 := by
  obtain ⟨flushed, same⟩ := appendEntry_manager workspace write entry
  rw [HoldsTree, same]
  exact tree.snoc unused below

private theorem below_leaf {leafId : Option JsString} {entries : List Json} {above : JsString}
    (known : ∀ id ∈ leafId, id ∈ entries.map entryId) (names : leafId.filter (· ≠ []) = some above) :
    above ∈ entries.map entryId :=
  known _ (Option.filter_eq_some_iff.mp names).1

private theorem buildIndex_tree {manager : SessionManager} {leafId : Option JsString}
    (tree : SessionTree manager.entries leafId) :
    SessionTree manager.buildIndex.entries manager.buildIndex.leafId := by
  rw [entries_buildIndex, leafId_buildIndex]
  refine ⟨tree.loose, tree.named, fun id last => ?_⟩
  obtain ⟨entry, isLast, rfl⟩ := Option.map_eq_some_iff.mp last
  exact List.mem_map_of_mem (List.mem_of_getLast? isLast)

/-- What an extraction does to the entries and the leaf. -/
theorem createBranchedSession_manager {leafId newSessionId timestamp : JsString} {labelIds : ℕ → JsString}
    {path : List Json} (found : workspace.manager.getBranch leafId = some path) (nonempty : path ≠ []) :
    let branched := (workspace.createBranchedSession leafId newSessionId timestamp labelIds).1.manager
    branched.entries = workspace.manager.branchedEntries path labelIds ∧
      branched.leafId = (workspace.manager.branchedEntries path labelIds).getLast?.map entryId := by
  cases path with
  | nil => exact absurd rfl nonempty
  | cons first rest =>
    simp only [Workspace.createBranchedSession, found]
    split
    · split <;> simp [Workspace.setFlushed]
    · simp

end Tree

section Extraction

variable {manager : SessionManager} {leafId : Option JsString} {path : List Json} {last : Json} {labelIds : ℕ → JsString}

private theorem mem_of_getLast?_map {entries : List Json} {id : JsString} (last : id ∈ entries.getLast?.map entryId) :
    id ∈ entries.map entryId := by
  obtain ⟨entry, isLast, rfl⟩ := Option.map_eq_some_iff.mp last
  exact List.mem_map_of_mem (List.mem_of_getLast? isLast)

/-- The entries of an extraction form a tree. -/
theorem branchedEntries_loose (tree : SessionTree manager.entries leafId) (inside : path.Sublist manager.entries)
    (distinct : labelIds.Injective) (unused : ∀ i, UnusedId manager.entries (labelIds i)) :
    Forest.Loose entryId parentId (manager.branchedEntries path labelIds) := by
  have fewer : (path.filter fun entry => !isLabel entry).Sublist manager.entries := List.filter_sublist.trans inside
  refine labelEntries_loose (tree.loose.sublist fewer) distinct
    (fun j _ => ⟨(unused j).1, (unused j).2.sublist fewer⟩) fun id above j _ same => ?_
  have known := mem_of_getLast?_map (Option.filter_eq_some_iff.mp above).1
  exact (unused j).2.1 (same ▸ (fewer.map entryId).subset known)

/-- The first entry that survives has no parent in an extraction. -/
private theorem survivors_top (tree : SessionTree manager.entries leafId)
    (trail : Trail manager.entries (some last) path) (inside : path.Sublist manager.entries) {first entry : Json}
    (leads : first ∈ (survivors path).head?) (member : entry ∈ path) (solid : isLabel entry = false) :
    parentId first ≠ some (entryId entry) := by
  intro names
  have split := path_split path
  cases before : (cutOff path).getLast? with
  | none =>
    rw [List.getLast?_eq_none_iff.mp before, List.nil_append] at split
    have top : first ∈ path.head? := by
      rw [split, List.head?_append, leads]
      rfl
    have unknown := trail.head top
    rw [names] at unknown
    exact Forest.find?_eq_none.mp unknown (List.mem_map_of_mem (inside.subset member))
  | some label =>
    have linked := trail.linked
    rw [split] at linked
    have above := (List.isChain_append.mp linked.left_of_append).2.2 label before first leads
    have onPath : label ∈ path := by
      rw [split]
      exact List.mem_append_left _ (List.mem_append_left _ (List.mem_of_getLast? before))
    have distinct : (path.map entryId).Nodup := tree.loose.nodup.sublist (inside.map _)
    have same : label = entry :=
      List.inj_on_of_nodup_map distinct onPath member (Option.some.inj (above.symm.trans names))
    have isLabel := @isLabel_cutOff path _ before
    rw [same, solid] at isLabel
    cases isLabel

theorem branchedEntries_tree (tree : SessionTree manager.entries leafId) (inside : path.Sublist manager.entries)
    (distinct : labelIds.Injective) (unused : ∀ i, UnusedId manager.entries (labelIds i)) :
    SessionTree (manager.branchedEntries path labelIds)
      ((manager.branchedEntries path labelIds).getLast?.map entryId) where
  loose := branchedEntries_loose tree inside distinct unused
  named := List.forall_mem_append.mpr ⟨fun entry member => tree.named entry
      (inside.subset (List.mem_of_mem_filter member)), fun entry member => by
    obtain ⟨_, j, _, same⟩ := mem_labelEntries member
    exact same ▸ (unused j).1⟩
  leaf := fun _ last => mem_of_getLast?_map last

/-- After an extraction the new leaf leads back to the entries that survive. -/
theorem branchedEntries_trail (tree : SessionTree manager.entries leafId)
    (trail : Trail manager.entries (some last) path) (inside : path.Sublist manager.entries)
    (distinct : labelIds.Injective) (unused : ∀ i, UnusedId manager.entries (labelIds i)) :
    ∃ labels, (∀ entry ∈ labels, isLabel entry = true) ∧
      (survivors path ++ labels).Sublist (manager.branchedEntries path labelIds) ∧
      Trail (manager.branchedEntries path labelIds) (manager.branchedEntries path labelIds).getLast?
        (survivors path ++ labels) := by
  have loose := branchedEntries_loose tree inside distinct unused
  have onPath : ∀ {entry}, entry ∈ survivors path → entry ∈ path := fun member => by
    rw [path_split path]
    exact List.mem_append_left _ (List.mem_append_right _ member)
  unfold SessionManager.branchedEntries at *
  dsimp only at *
  rw [getLast?_filter_path] at *
  cases survives : (survivors path).head? with
  | none =>
    have nothing := List.head?_eq_none_iff.mp survives
    have noEntries : (path.filter fun entry => !isLabel entry) = [] := by
      rw [filter_path, nothing, cutOff_eq_nil nothing]
      rfl
    refine ⟨[], nofun, ?_, ?_⟩
    · rw [nothing]
      exact List.nil_sublist _
    · rw [nothing, noEntries]
      simp only [List.getLast?_nil, List.map_nil, SessionManager.labelsToWrite, List.not_mem_nil, decide_false,
        List.filter_false, SessionManager.labelEntries, List.append_nil]
      exact .stop
  | some first =>
    generalize labelsHere : manager.labelEntries labelIds 0 _ _ = labels at *
    have kept : (survivors path ++ labels).Sublist ((path.filter fun entry => !isLabel entry) ++ labels) := by
      rw [filter_path]
      exact (List.sublist_append_right _ _).append_right _
    refine ⟨labels, fun entry member => (mem_labelEntries (labelsHere ▸ member)).1, kept, ?_⟩
    have ends : ((path.filter fun entry => !isLabel entry) ++ labels).getLast? = (survivors path ++ labels).getLast? := by
      rw [List.getLast?_append, List.getLast?_append, getLast?_filter_path]
    rw [ends]
    refine Forest.trail_of_linked ?_ (fun entry member => Forest.find?_of_nodup loose.nodup (kept.subset member)) ?_
    · refine List.IsChain.append ( List.IsChain.infix trail.linked ⟨cutOff path, _, (path_split path).symm⟩)
        (labelsHere ▸ labelEntries_linked fun j => (unused j).1) fun above isLast below leads => ?_
      rw [parentId_labelEntries (labelsHere ▸ leads), Option.mem_def.mp isLast]
      have named : entryId above ≠ [] := tree.named above (inside.subset (onPath (List.mem_of_getLast? isLast)))
      simp [named]
    · intro top leads
      rw [List.head?_append, survives, Option.some_or, Option.mem_some_iff] at leads
      subst leads
      cases names : parentId first with
      | none => rfl
      | some above =>
        refine Forest.find?_eq_none.mpr fun known => ?_
        obtain ⟨entry, member, rfl⟩ := List.mem_map.mp known
        rcases List.mem_append.mp member with fromPath | fromLabels
        · obtain ⟨member, solid⟩ := List.mem_filter.mp fromPath
          exact survivors_top tree trail inside survives member (by simpa using solid) names
        · obtain ⟨_, j, _, same⟩ := mem_labelEntries (labelsHere ▸ fromLabels)
          refine (unused j).2.2 ?_
          rw [← same, ← names]
          exact List.mem_map_of_mem (inside.subset (onPath (List.mem_of_head? survives)))

end Extraction

section Context

variable {workspace : Workspace} {entries path : List Json} {leafId : Option JsString} {id : JsString} {entry : Json}

private theorem get?_id (named : entryId entry ≠ []) : entry.get? (js "id") = some (.str (entryId entry)) := by
  unfold entryId textField? at *
  cases held : entry.get? (js "id") with
  | none => simp [held] at named
  | some value => cases value <;> simp_all [Json.str?]

private theorem nodup_get?_id (named : ∀ entry ∈ path, entryId entry ≠ []) (distinct : (path.map entryId).Nodup) :
    (path.map (·.get? (js "id"))).Nodup := by
  have same : path.map (·.get? (js "id")) = (path.map entryId).map fun id => some (Json.str id) := by
    rw [List.map_map]
    exact List.map_congr_left fun entry member => get?_id (named entry member)
  rw [same]
  refine distinct.map fun first second equal => ?_
  simpa using equal

private theorem nodup_path (tree : SessionTree entries leafId) (inside : path.Sublist entries) :
    (path.map (·.get? (js "id"))).Nodup :=
  nodup_get?_id (fun entry member => tree.named entry (inside.subset member)) (tree.loose.nodup.sublist (inside.map _))

private theorem lookup_named (named : id ≠ []) :
    ((some id).filter (· ≠ [])).bind (byId entries) = byId entries id := by
  rw [Option.filter_some_pos (by simpa using named), Option.bind_some]

/-- The context of a leaf is the one of its path. -/
theorem buildSessionContext_known (tree : SessionTree entries leafId) (known : id ∈ entries.map entryId) :
    ∃ leaf path, byId entries id = some leaf ∧ id ≠ [] ∧ Trail entries (some leaf) path ∧ path.Sublist entries ∧
      pathTo? entries (some leaf) = some path ∧ buildSessionContext entries (some id) = some (pathContext path) := by
  obtain ⟨leaf, member, rfl⟩ := List.mem_map.mp known
  have found := byId_eq_some tree.loose.nodup member
  obtain ⟨path, trail, inside, walked⟩ := tree.exists_path member
  refine ⟨leaf, path, found, tree.named leaf member, trail, inside, walked, ?_⟩
  simp only [buildSessionContext, lookup_named (tree.named leaf member), found]
  simp [walked]

private theorem appendLabelChange_tree (tree : HoldsTree workspace) {targetId timestamp : JsString}
    {label : Option JsString} {write : WriteOutcome} (unused : UnusedId workspace.manager.entries id) :
    HoldsTree (workspace.appendLabelChange targetId label id timestamp write).1 := by
  unfold Workspace.appendLabelChange
  split
  · exact tree
  · have appended := appendEntry_tree tree
      (labelEntry id workspace.manager.leafId (some (.str timestamp)) targetId label) write
      (by rwa [entryId_labelEntry]) (fun above names => below_leaf tree.leaf (by rwa [parentId_labelEntry] at names))
    split
    · next same => rwa [same] at appended
    · next same =>
      rw [same] at appended
      simpa [HoldsTree] using appended

private theorem branchWithSummary_tree (tree : HoldsTree workspace) {branchFromId : Option JsString}
    {summary timestamp : JsString} {details : Option Json} {fromHook : Option Bool} {write : WriteOutcome}
    (unused : UnusedId workspace.manager.entries id) :
    HoldsTree (workspace.branchWithSummary branchFromId summary details fromHook id timestamp write).1 := by
  unfold Workspace.branchWithSummary
  split
  · exact tree
  · next known =>
    have leaf : ∀ above ∈ branchFromId, above ∈ workspace.manager.entries.map entryId := fun above same => by
      refine mem_ids (Bool.eq_false_iff.mpr fun unknown => ?_)
      cases same
      simp [Option.isNone_iff_eq_none.mp unknown] at known
    have moved : HoldsTree { workspace with manager := { workspace.manager with leafId := branchFromId } } :=
      ⟨tree.loose, tree.named, leaf⟩
    exact appendEntry_tree moved _ write (by rwa [entryId_branchSummaryEntry])
      (fun above names => below_leaf leaf (by rwa [parentId_branchSummaryEntry] at names))

private theorem createBranchedSession_tree (tree : HoldsTree workspace) {leafId newSessionId timestamp : JsString}
    {labelIds : ℕ → JsString} (distinct : labelIds.Injective)
    (unused : ∀ i, UnusedId workspace.manager.entries (labelIds i)) :
    HoldsTree (workspace.createBranchedSession leafId newSessionId timestamp labelIds).1 := by
  by_cases known : leafId ∈ workspace.manager.entries.map entryId
  · obtain ⟨leaf, path, found, named, trail, inside, walked, _⟩ := buildSessionContext_known tree known
    obtain ⟨entries, newLeaf⟩ := @createBranchedSession_manager _ _ newSessionId timestamp labelIds _
      (by rw [SessionManager.getBranch, lookup_named named, found, walked] : _ = some path)
      (by rintro rfl; cases trail.getLast?)
    rw [HoldsTree, entries, newLeaf]
    exact branchedEntries_tree tree inside distinct unused
  · have missing : ((some leafId).filter (· ≠ [])).bind (byId workspace.manager.entries) = none :=
      Option.bind_eq_none_iff.mpr fun id same => by
        rw [← (Option.some.inj (Option.filter_eq_some_iff.mp same).1)]
        exact Forest.find?_eq_none.mpr known
    have nothing : workspace.manager.getBranch leafId = some [] := by
      rw [SessionManager.getBranch, missing]
      rfl
    rw [Workspace.createBranchedSession, nothing]
    exact tree

private theorem setSessionFile_tree (tree : HoldsTree workspace) {sessionFile newId timestamp : JsString}
    {ids : ℕ → JsString} (fresh : UnusedIds workspace (.setSessionFile sessionFile newId timestamp ids)) :
    HoldsTree (workspace.setSessionFile sessionFile newId timestamp ids).1 := by
  have reset (files : Files) (manager : SessionManager) :
      HoldsTree (Workspace.rewriteFile ⟨manager.resetToNewSession {} newId timestamp, files⟩ .completed).1 := by
    rw [HoldsTree, manager_rewriteFile]
    exact sessionTree_nil
  unfold Workspace.setSessionFile
  dsimp only
  split
  · exact reset ..
  · next content held =>
    split
    · exact tree
    · exact reset ..
    · next loaded loads =>
      unfold HoldsTree
      refine @buildIndex_tree _ none ?_
      split
      · rw [manager_rewriteFile]
        exact fresh content loaded held loads
      · exact fresh content loaded held loads

/-- Operations that draw unused ids keep the tree. -/
theorem built_tree (built : Built workspace) : HoldsTree workspace := by
  induction built with
  | blank => exact sessionTree_nil
  | @step workspace operation _ fresh ih =>
    cases operation with
    | newSession options newId timestamp =>
      show HoldsTree (workspace.newSession options newId timestamp)
      unfold HoldsTree Workspace.newSession
      dsimp only
      split
      · rw [manager_rewriteFile]
        exact sessionTree_nil
      · exact sessionTree_nil
    | append content id timestamp write =>
      exact appendEntry_tree ih _ write (by rwa [entryId_content])
        fun above names => below_leaf ih.leaf (by rwa [parentId_content] at names)
    | appendLabelChange targetId label id timestamp write => exact appendLabelChange_tree ih fresh
    | branch branchFromId =>
      show HoldsTree (workspace.branch branchFromId).1
      unfold Workspace.branch
      split
      · exact ih
      · next known => exact ih.at (mem_ids (Bool.eq_false_iff.mpr known))
    | resetLeaf => exact ih.reset
    | branchWithSummary branchFromId summary details fromHook id timestamp write => exact branchWithSummary_tree ih fresh
    | createBranchedSession leafId newSessionId timestamp labelIds => exact createBranchedSession_tree ih fresh.1 fresh.2
    | setSessionFile sessionFile newId timestamp ids => exact setSessionFile_tree ih fresh

/-- An extraction keeps the context of its leaf exactly when what it cuts off adds nothing to it. -/
theorem createBranchedSession_context_iff {leafId newSessionId timestamp : JsString} {labelIds : ℕ → JsString}
    (built : Built workspace) (known : (byId workspace.manager.entries leafId).isSome)
    (fresh : UnusedIds workspace (.createBranchedSession leafId newSessionId timestamp labelIds)) :
    ∃ path before after, workspace.manager.getBranch leafId = some path ∧
      buildSessionContext workspace.manager.entries (some leafId) = some before ∧
      (workspace.createBranchedSession leafId newSessionId timestamp labelIds).1.manager.buildSessionContext = some after ∧
      (after = before ↔ AddsNothing (cutOff path) (survivors path)) := by
  have tree := built_tree built
  obtain ⟨leaf, path, found, named, trail, inside, walked, before⟩ :=
    buildSessionContext_known tree (isSome_byId.mp known)
  have branch : workspace.manager.getBranch leafId = some path := by
    rw [SessionManager.getBranch, lookup_named named, found, walked]
  have nonempty : path ≠ [] := by
    rintro rfl
    cases trail.getLast?
  obtain ⟨entries, newLeaf⟩ := @createBranchedSession_manager _ _ newSessionId timestamp labelIds _ branch nonempty
  obtain ⟨distinct, unused⟩ := fresh
  obtain ⟨labels, allLabels, fewer, trail'⟩ := branchedEntries_trail tree trail inside distinct unused
  have tree' := branchedEntries_tree tree inside distinct unused
  refine ⟨path, _, pathContext (survivors path), branch, before, ?_, ?_⟩
  · rw [SessionManager.buildSessionContext, entries, newLeaf]
    cases last : (workspace.manager.branchedEntries path labelIds).getLast? with
    | none =>
      rw [List.getLast?_eq_none_iff.mp last] at fewer
      rw [(List.append_eq_nil_iff.mp (List.sublist_nil.mp fewer)).1]
      rfl
    | some entry =>
      obtain ⟨leaf', path', found', _, trailAgain, _, _, context⟩ :=
        buildSessionContext_known tree' (List.mem_map_of_mem (List.mem_of_getLast? last))
      rw [byId_eq_some tree'.loose.nodup (List.mem_of_getLast? last)] at found'
      cases found'
      rw [last] at trail'
      rw [trailAgain.unique trail', pathContext_append_labels (nodup_path tree' fewer) allLabels] at context
      exact context
  · have distinct := nodup_path tree inside
    rw [path_split path] at distinct
    have whole : pathContext path = pathContext (cutOff path ++ survivors path) := by
      conv_lhs => rw [path_split path]
      exact pathContext_append_labels distinct fun entry => isLabel_trailing
    rw [whole]
    exact pathContext_eq_iff (distinct.sublist ((List.sublist_append_left _ _).map _))

end Context

section Labelled

private def userMessage (text : String) : Json := .obj [(js "role", .str (js "user")), (js "content", .str (js text))]

private def blankWorkspace (persist : Bool) : Workspace := ⟨.blank (js "/project") (js "/sessions") persist, .empty⟩

/-- A question that is labelled before the next one is asked. -/
def labelledHistory (persist : Bool) : Workspace :=
  [.newSession {} (js "session") (js "2026-01-01T00:00:00.000Z"),
    .append (.message (userMessage "first")) (js "a") (js "2026-01-01T00:00:01.000Z") .completed,
    .appendLabelChange (js "a") (some (js "start")) (js "l") (js "2026-01-01T00:00:02.000Z") .completed,
    .append (.message (userMessage "second")) (js "b") (js "2026-01-01T00:00:03.000Z") .completed].foldl
      Workspace.perform (blankWorkspace persist)

private theorem unusedIds_append {workspace : Workspace} {content : Content} {id timestamp : JsString}
    {write : WriteOutcome} (unused : UnusedId workspace.manager.entries id) :
    UnusedIds workspace (.append content id timestamp write) := unused

private theorem unusedIds_label {workspace : Workspace} {targetId id timestamp : JsString} {label : Option JsString}
    {write : WriteOutcome} (unused : UnusedId workspace.manager.entries id) :
    UnusedIds workspace (.appendLabelChange targetId label id timestamp write) := unused

private theorem built_labelledHistory (persist : Bool) : Built (labelledHistory persist) :=
  have opened : Built ((blankWorkspace persist).perform
      (.newSession {} (js "session") (js "2026-01-01T00:00:00.000Z"))) := (Built.blank ..).step trivial
  ((opened.step (unusedIds_append (by cases persist <;> decide))).step
    (unusedIds_label (by cases persist <;> decide))).step (unusedIds_append (by cases persist <;> decide))

/-- Ids that are longer than any other. -/
private def longIds (i : ℕ) : JsString := List.replicate (i + 2) 120

private theorem longIds_unused (persist : Bool) :
    UnusedIds (labelledHistory persist) (.createBranchedSession (js "b") (js "branch") (js "now") longIds) := by
  constructor
  · intro i j same
    simpa [longIds] using congrArg List.length same
  · intro i
    have ids : (labelledHistory persist).manager.entries.map entryId = [js "a", js "l", js "b"] := by
      cases persist <;> decide
    have parents : (labelledHistory persist).manager.entries.map parentId = [none, some (js "a"), some (js "l")] := by
      cases persist <;> decide
    have apart : ∀ text : JsString, text.length = 1 → longIds i ≠ text := fun text short same => by
      have := congrArg List.length same
      simp [longIds, short] at this
    refine ⟨by simp [longIds], ?_, ?_⟩
    · rw [ids]
      simp [apart _ (rfl : (js "a").length = 1), apart _ (rfl : (js "l").length = 1), apart _ (rfl : (js "b").length = 1)]
    · rw [parents]
      simp [apart _ (rfl : (js "a").length = 1), apart _ (rfl : (js "l").length = 1)]

theorem createBranchedSession_context_iff_labelled : ∃ path before after,
    (labelledHistory true).manager.getBranch (js "b") = some path ∧
      buildSessionContext (labelledHistory true).manager.entries (some (js "b")) = some before ∧
      ((labelledHistory true).createBranchedSession (js "b") (js "branch") (js "now") longIds).1.manager.buildSessionContext =
        some after ∧
      (after = before ↔ AddsNothing (cutOff path) (survivors path)) :=
  createBranchedSession_context_iff (built_labelledHistory true) (by decide) (longIds_unused true)

/-- The extraction at the second question has lost the first one. -/
theorem label_cuts_history : ∃ workspace leafId newSessionId timestamp labelIds, Built workspace ∧
    (byId workspace.manager.entries leafId).isSome ∧
    UnusedIds workspace (.createBranchedSession leafId newSessionId timestamp labelIds) ∧
    (workspace.createBranchedSession leafId newSessionId timestamp labelIds).1.manager.buildSessionContext ≠
      buildSessionContext workspace.manager.entries (some leafId) :=
  ⟨labelledHistory true, js "b", js "branch", js "now", longIds, built_labelledHistory true, by decide,
    longIds_unused true, by decide⟩

end Labelled

end PieAgent.Soundness
