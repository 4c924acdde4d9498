import Equijoin.Proofs.Stages.Joining
import Equijoin.Proofs.Tasks.Guarantees

/-! # Shard files are removed

Among the tasks that join shards nobody makes a shard file, and each task removes those of its shard
before it reports that the shard is finished.

* `Shrinks`: the scratch directory stays, and of its shard files some may be gone.
* `ShardHeld.cleared`: the release of a shard removes all of its files.
* `Releases`: what a step of these tasks may change; `joinTask_stays`: it changes no more.
-/

set_option autoImplicit false

namespace Equijoin

open FileTree

variable {dir : Scratch} {shard : Nat} {t u v : FileTree}

/-! ## Trees -/

/-- No dataset has a file for the shard in the directory. -/
def Scratch.Cleared (dir : Scratch) (shard : Nat) (t : FileTree) : Prop :=
  ∀ i, t.nodeAt? (shardPlace dir i shard) = none

/-- The directory stays, and of its shard files some may be gone. -/
structure Shrinks (dir : Scratch) (t u : FileTree) : Prop where
  place : t.node? dir.location = some .directory → u.node? dir.location = some .directory
  shards : ∀ i shard, u.nodeAt? (shardPlace dir i shard) = t.nodeAt? (shardPlace dir i shard) ∨
    u.nodeAt? (shardPlace dir i shard) = none

namespace Shrinks

theorem refl (dir : Scratch) (t : FileTree) : Shrinks dir t t := ⟨id, fun _ _ => .inl rfl⟩

theorem trans (h : Shrinks dir t u) (h' : Shrinks dir u v) : Shrinks dir t v where
  place hplace := h'.place (h.place hplace)
  shards i shard := by
    rcases h'.shards i shard with hv | hv
    · rw [hv]
      exact h.shards i shard
    · exact .inr hv

theorem cleared (h : Shrinks dir t u) (ht : dir.Cleared shard t) : dir.Cleared shard u := by
  intro i
  rcases h.shards i shard with hu | hu
  · rw [hu, ht i]
  · exact hu

end Shrinks

theorem FileTree.AgreeOn.shrinks {P : Location → Prop} (h : AgreeOn P t u) (hdir : P dir.location)
    (hshards : ∀ i shard, P (shardPlace dir i shard)) : Shrinks dir t u where
  place hplace := by rw [← h.node? hdir, hplace]
  shards i shard := .inl (h.2 _ (hshards i shard)).symm

theorem node?_inside (t : FileTree) (l : Location) (name : String) :
    t.node? (l ++ [.given name]) = t.nodeAt? (l ++ [.given name]) := by
  rw [node?_eq, if_neg (by simp)]

theorem shrinks_erase {l : Location} (hl : l ≠ dir.location) : Shrinks dir t (t.erase l) where
  place hplace := by
    rw [← hplace]
    exact ((agreeOn_erase (P := (· ≠ l)) fun h => h rfl).node? hl.symm).symm
  shards i shard := by
    rw [nodeAt?_erase]
    split
    · exact .inr rfl
    · exact .inl rfl

theorem shrinks_discard (t : FileTree) (name : String) :
    Shrinks dir t (t.discard (.inside dir name)) := by
  unfold FileTree.discard removeFile
  cases hl : t.locate (.inside dir name) with
  | error fault => exact .refl dir t
  | ok l =>
    have hne : l ≠ dir.location := by
      rw [show l = dir.location ++ [.given name] from leads_locate hl]
      exact (location_ne_append _ _).symm
    rw [ok_bind]
    split
    · rename_i w hw
      split at hw
      · cases hw
        exact shrinks_erase hne
      · cases hw
      · cases hw
    · exact .refl dir t

theorem nodeAt?_of_read {name : String} {c : Bytes} (h : t.read (.inside dir name) = .ok c) :
    t.nodeAt? (dir.location ++ [.given name]) = some (.file c) ∧
      checkSize (dir.pathSize + 1 + name.utf8ByteSize) = .ok () := by
  obtain ⟨l, hlocate, hnode⟩ := bind_eq_ok.1 h
  obtain ⟨⟨⟩, hsize, -⟩ := bind_eq_ok.1 hlocate
  refine ⟨?_, hsize⟩
  rw [show l = dir.location ++ [.given name] from leads_locate hlocate, node?_inside] at hnode
  split at hnode
  · rename_i hfile
    cases hnode
    exact hfile
  · cases hnode
  · cases hnode

/-- A file in the directory is removed, if its name is not too long. -/
theorem nodeAt?_discard {name : String} {c : Bytes}
    (hplace : t.node? dir.location = some .directory)
    (hsize : checkSize (dir.pathSize + 1 + name.utf8ByteSize) = .ok ())
    (hfile : t.nodeAt? (dir.location ++ [.given name]) = some (.file c)) :
    (t.discard (.inside dir name)).nodeAt? (dir.location ++ [.given name]) = none := by
  have hlocate : t.locate (.inside dir name) = .ok (dir.location ++ [.given name]) := by
    unfold locate
    simp only [hsize, enter_eq_ok.2 hplace, ok_bind]
  have hremove : t.removeFile (.inside dir name) =
      .ok (t.erase (dir.location ++ [.given name])) := by
    unfold removeFile
    rw [hlocate, ok_bind, node?_inside, hfile]
  unfold FileTree.discard
  rw [hremove]
  exact (nodeAt?_erase _ _ _).trans (if_pos rfl)

/-! ## The release of a shard -/

variable {sets : List ShardSet}

/-- The directory stands, and whatever file it has for the shard is one that a set names. -/
structure ShardHeld (dir : Scratch) (sets : List ShardSet) (shard : Nat) (t : FileTree) : Prop where
  place : t.node? dir.location = some .directory
  files : ∀ i, t.nodeAt? (shardPlace dir i shard) = none ∨
    (∃ c, t.nodeAt? (shardPlace dir i shard) = some (.file c)) ∧
      checkSize (dir.pathSize + 1 + (shardName i shard).utf8ByteSize) = .ok () ∧
      ∃ set ∈ sets, set.rows.isSome = true ∧ set.file shard = shardPath (.scratch dir) i shard

theorem ShardHeld.shrinks (h : ShardHeld dir sets shard t) (hu : Shrinks dir t u) :
    ShardHeld dir sets shard u where
  place := hu.place h.place
  files i := by
    rcases hu.shards i shard with heq | hnone
    · rw [heq]
      exact h.files i
    · exact .inl hnone

theorem releaseShard_cons (set : ShardSet) (rest : List ShardSet) (shard : Nat) (t : FileTree) :
    releaseShard (set :: rest) shard t = releaseShard rest shard
      (if set.rows.isSome then FileTree.discard t (set.file shard) else t) := by
  unfold releaseShard
  rw [List.filter_cons]
  split
  · rfl
  · rfl

theorem ShardSet.Fits.shardPath {set : ShardSet} (h : set.Fits dir shard)
    (hrows : set.rows.isSome = true) :
    ∃ i, set.file shard = Equijoin.shardPath (.scratch dir) i shard := by
  rcases h with ⟨hnone, -⟩ | h
  · rw [hnone] at hrows
    cases hrows
  · exact h

theorem shrinks_releaseShard (hsets : ∀ set ∈ sets, set.Fits dir shard) (t : FileTree) :
    Shrinks dir t (releaseShard sets shard t) := by
  induction sets generalizing t with
  | nil => exact .refl dir t
  | cons set rest ih =>
    have hrest := ih fun set' h => hsets set' (List.mem_cons_of_mem _ h)
    rw [releaseShard_cons]
    split
    · rename_i hrows
      obtain ⟨i, hi⟩ := (hsets set List.mem_cons_self).shardPath hrows
      rw [hi]
      exact (shrinks_discard t _).trans (hrest _)
    · exact hrest t

/-- A file that a set names for the shard is gone after the release, whatever is removed before. -/
theorem nodeAt?_releaseShard {i : Nat} {set : ShardSet} (hsets : ∀ set ∈ sets, set.Fits dir shard)
    (hplace : t.node? dir.location = some .directory)
    (hsize : checkSize (dir.pathSize + 1 + (shardName i shard).utf8ByteSize) = .ok ())
    (hset : set ∈ sets) (hrows : set.rows.isSome = true)
    (hfile : set.file shard = shardPath (.scratch dir) i shard)
    (hnode : t.nodeAt? (shardPlace dir i shard) = none ∨
      ∃ c, t.nodeAt? (shardPlace dir i shard) = some (.file c)) :
    (releaseShard sets shard t).nodeAt? (shardPlace dir i shard) = none := by
  induction sets generalizing t with
  | nil => cases hset
  | cons first rest ih =>
    have hrest : ∀ set' ∈ rest, set'.Fits dir shard := fun set' h =>
      hsets set' (List.mem_cons_of_mem _ h)
    rw [releaseShard_cons]
    rcases List.mem_cons.1 hset with rfl | hset
    · rw [if_pos hrows, hfile]
      have hgone : (t.discard (shardPath (.scratch dir) i shard)).nodeAt?
          (shardPlace dir i shard) = none := by
        rcases hnode with hnone | ⟨c, hc⟩
        · exact ((shrinks_discard t _).shards i shard).elim (fun heq => heq.trans hnone) id
        · exact nodeAt?_discard hplace hsize hc
      exact ((shrinks_releaseShard hrest _).shards i shard).elim (fun heq => heq.trans hgone) id
    · split
      · rename_i hfirst
        obtain ⟨j, hj⟩ := (hsets first List.mem_cons_self).shardPath hfirst
        rw [hj]
        have hstep : Shrinks dir t (FileTree.discard t (shardPath (.scratch dir) j shard)) :=
          shrinks_discard t (shardName j shard)
        refine ih hrest (hstep.place hplace) hset ?_
        rcases hstep.shards i shard with heq | hgone
        · rw [← heq] at hnode
          exact hnode
        · exact .inl hgone
      · exact ih hrest hplace hset hnode

/-- The release of a shard removes all of its files. -/
theorem ShardHeld.cleared (h : ShardHeld dir sets shard t)
    (hsets : ∀ set ∈ sets, set.Fits dir shard) :
    dir.Cleared shard (releaseShard sets shard t) := by
  intro i
  rcases h.files i with hnone | ⟨hfile, hsize, set, hset, hrows, hp⟩
  · exact ((shrinks_releaseShard hsets t).shards i shard).elim (fun heq => heq.trans hnone) id
  · exact nodeAt?_releaseShard hsets h.place hsize hset hrows hp (.inr hfile)

/-! ## Sessions -/

/-- Shard files may disappear, and a shard may be reported as finished once none of its files is
left. -/
structure Releases (dir : Scratch) (s u : Session) : Prop where
  files : Shrinks dir s.files u.files
  events : ∀ shard rows, .shardFinished shard rows ∈ u.events →
    .shardFinished shard rows ∈ s.events ∨ dir.Cleared shard u.files

namespace Releases

variable {s s' s'' : Session}

theorem refl (dir : Scratch) (s : Session) : Releases dir s s :=
  ⟨.refl dir s.files, fun _ _ h => .inl h⟩

theorem trans (s s' s'' : Session) (h : Releases dir s s') (h' : Releases dir s' s'') :
    Releases dir s s'' where
  files := h.files.trans h'.files
  events shard rows he := by
    rcases h'.events shard rows he with he' | hcleared
    · rcases h.events shard rows he' with he'' | hcleared
      · exact .inl he''
      · exact .inr (h'.files.cleared hcleared)
    · exact .inr hcleared

/-- A change of neither files nor events. -/
theorem aside (hfiles : s'.files = s.files) (hevents : s'.events = s.events) :
    Releases dir s s' where
  files := hfiles ▸ .refl dir s.files
  events _ _ h := .inl (hevents ▸ h)

theorem withFiles (s : Session) {files : FileTree} (h : Shrinks dir s.files files) :
    Releases dir s (s.withFiles files) := ⟨h, fun _ _ he => .inl he⟩

theorem emit (s : Session) {e : Event} (h : ∀ shard rows, e = .shardFinished shard rows →
    dir.Cleared shard s.files) : Releases dir s (s.emit e) where
  files := .refl dir s.files
  events shard rows he := by
    rcases List.mem_append.1 he with he | he
    · exact .inl he
    · exact .inr (h shard rows (List.mem_singleton.1 he).symm)

end Releases

theorem stays_onFiles {α : Type} {task : Task FileTree α} {s : Session}
    {post : Outcome α → Session → Prop} (h : task.Stays (Shrinks dir) s.files fun _ _ => True)
    (hpost : ∀ r u, Releases dir s u → post r u) : task.onFiles.Stays (Releases dir) s post := by
  have hstays : task.onFiles.Stays (Releases dir) s fun _ _ => True :=
    Task.Stays.within (fun _ _ => rfl) (fun _ _ hview => hview.files)
      (fun a _ hstep => Releases.withFiles a hstep) h fun _ _ => trivial
  exact (hstays.reached (Releases.refl dir) Releases.trans).mono hpost

theorem stays_count {change : Metrics → Metrics} {s : Session} {post : Outcome Unit → Session → Prop}
    (h : ∀ u, Releases dir s u → post (.ok ()) { u with metrics := change u.metrics }) :
    (Task.count change).Stays (Releases dir) s post :=
  Task.stays_act fun u hu => ⟨.aside rfl rfl, h u hu⟩

/-! ## Tasks -/

theorem load_stays (input : ShardInput) :
    input.load.Stays (Shrinks dir) t fun _ _ => True := by
  refine Task.Stays.seq (Task.stays_read (.refl dir) fun _ _ => trivial) fun files u => ?_
  refine Task.stays_done_bind (fun table _ => ?_) fun _ _ => trivial
  exact Task.stays_done_bind (fun _ _ => trivial) fun _ _ => trivial

theorem joinParts_stays (leftKey : List Nat) (left : Table) (inputs : List ShardInput) :
    (joinParts leftKey left inputs).Stays (Shrinks dir) t fun _ _ => True := by
  induction inputs generalizing left t with
  | nil => trivial
  | cons input rest ih =>
    refine Task.Stays.seq (Task.stays_check fun _ => trivial) fun _ u => ?_
    exact (load_stays input).seq fun loaded v => ih _

theorem joinShard_stays (inputs : List ShardInput) :
    (joinShard inputs).Stays (Shrinks dir) t fun _ _ => True := by
  unfold joinShard
  split
  · trivial
  · split
    · trivial
    · exact (load_stays _).seq fun loaded v => joinParts_stays _ _ _

theorem writePart_stays (index : Nat) (table : Table) :
    (writePart index table (partPath (.scratch dir) shard)).Stays (Shrinks dir) t
      fun _ _ => True := by
  have hwrite : ∀ (t : FileTree) (content : Bytes), Task.Stays (Shrinks dir)
      (Task.attempt fun files => (files.writeFile (partPath (.scratch dir) shard) content).mapError
        fun fault => Fault.csv (.io fault)) t fun _ _ => True := by
    intro t content
    refine Task.stays_attempt (.refl dir) (fun u v _ hv => ⟨?_, trivial⟩) fun _ _ _ => trivial
    refine (agreeOn_writeFile (P := (· ≠ partPlace dir shard)) (mapError_eq_ok.1 hv) ?_).shrinks
      (location_ne_append _ _) fun i k => shardPlace_ne_partPlace
    intro l hl hne
    exact hne hl
  refine (hwrite t []).seq fun _ u => ?_
  refine Task.stays_done_bind (fun text _ => ?_) fun _ _ => trivial
  exact (hwrite u text).seq fun _ _ => trivial

variable {datasets : List Dataset} {s : Session}

/-- A shard is reported as finished only when it has no files any more. -/
theorem reportPart_stays (part : Outcome Part) (h : dir.Cleared shard s.files) :
    (reportPart shard part).Stays (Releases dir) s fun _ _ => True := by
  refine Task.Stays.bind (P := fun _ u => dir.Cleared shard u.files)
    (stays_count fun u hu => hu.files.cleared h) ?_ fun _ _ _ => trivial
  intro _ u hu
  refine Task.stays_done_bind (fun part _ => ?_) fun _ _ => trivial
  refine Task.Stays.seq (Task.stays_act fun w hw => ⟨?_, trivial⟩) fun _ _ => trivial
  refine Releases.emit w fun shard' rows' he => ?_
  cases he
  exact hw.files.cleared hu

theorem noteWait_stays (waited : Duration) (h : ShardHeld dir sets shard s.files) :
    (noteWait waited).Stays (Releases dir) s fun _ u => ShardHeld dir sets shard u.files := by
  unfold noteWait
  split
  · exact h
  · refine Task.Stays.bind (P := fun _ u => ShardHeld dir sets shard u.files)
      (stays_count fun u hu => h.shrinks hu.files) ?_ fun _ _ h => h
    intro _ v hv
    refine Task.stays_act fun u hu => ⟨?_, hv.shrinks hu.files⟩
    exact Releases.emit u fun _ _ he => (nomatch he)

theorem joinAdmitted_stays (hsets : ∀ set ∈ sets, set.Fits dir shard) (waited : Duration)
    (h : ShardHeld dir sets shard s.files) :
    (joinAdmitted datasets sets (.scratch dir) waited shard).Stays (Releases dir) s
      fun _ _ => True := by
  rw [joinAdmitted_eq]
  refine Task.Stays.bind (noteWait_stays waited h) ?_ fun _ _ _ => trivial
  intro _ s₀ h₀
  refine Task.Stays.bind (P := fun _ u => ShardHeld dir sets shard u.files)
    (Task.stays_check fun _ => h₀) ?_ fun _ _ _ => trivial
  intro _ s₁ h₁
  refine Task.Stays.bind (P := fun _ u => ShardHeld dir sets shard u.files)
    (stays_count fun u hu => h₁.shrinks hu.files) ?_ fun _ _ _ => trivial
  intro _ s₂ h₂
  refine Task.Stays.bind (P := fun _ u => ShardHeld dir sets shard u.files)
    (Task.stays_act fun u hu =>
      ⟨Releases.emit u fun _ _ he => (nomatch he), h₂.shrinks hu.files⟩) ?_ fun _ _ _ => trivial
  intro _ s₃ h₃
  refine Task.Stays.caught_bind (P := fun _ u => ShardHeld dir sets shard u.files)
    (stays_onFiles (joinShard_stays _) fun _ u hu => h₃.shrinks hu.files) ?_
  intro joined s₄ h₄
  refine Task.Stays.bind (P := fun _ u => dir.Cleared shard u.files)
    (Task.stays_act fun u hu => ⟨?_, ?_⟩) ?_ fun _ _ _ => trivial
  · exact Releases.withFiles u (shrinks_releaseShard hsets u.files)
  · exact (h₄.shrinks hu.files).cleared hsets
  intro _ s₅ h₅
  refine Task.Stays.caught_bind (P := fun _ u => dir.Cleared shard u.files) ?_
    fun part u hu => reportPart_stays part hu
  refine Task.stays_done_bind (fun table _ => ?_) fun _ _ => h₅
  exact stays_onFiles (writePart_stays shard table) fun _ u hu => hu.files.cleared h₅

theorem joinTask_stays (hsets : ∀ set ∈ sets, set.Fits dir shard) (waits : Nat → Duration)
    (h : ShardHeld dir sets shard s.files) :
    (joinTask datasets sets (.scratch dir) waits shard).Stays (Releases dir) s
      fun _ _ => True := by
  refine Task.Stays.bind (P := fun _ u => ShardHeld dir sets shard u.files)
    (Task.stays_check fun _ => h) ?_ fun _ _ _ => trivial
  intro _ s₁ h₁
  refine Task.Stays.bind (P := fun _ u => ShardHeld dir sets shard u.files)
    (Task.stays_await fun u v hu hv => ?_) ?_ fun _ _ _ => trivial
  · obtain ⟨n, -, rfl⟩ := admit?_eq_some.1 hv
    exact ⟨.aside rfl rfl, h₁.shrinks hu.files⟩
  intro _ s₂ h₂
  refine (joinAdmitted_stays hsets _ h₂).caught_bind fun part s₃ _ => ?_
  refine Task.Stays.seq (Task.stays_act fun u _ => ⟨.aside rfl rfl, trivial⟩) fun _ _ => ?_
  trivial

end Equijoin
