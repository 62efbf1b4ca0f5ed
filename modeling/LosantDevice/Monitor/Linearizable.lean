import LosantDevice.Monitor.Memory

/-!
# The health store is linearizable

`Snapshot` is right on a store that holds still. While a goroutine holds the read lock the store
does: nobody writes its two fields, and the map behind it belongs to nobody who could change it. An
update takes effect when it gets the lock and a snapshot when it gets the read lock.
-/
namespace LosantDevice.Monitor.Shared
open Effect Go

/-! ## A snapshot of a store that holds still -/

/-- On a store with the value `h` and the map `nodes`, with the maps `mine` of its own, the program
gives the lock back with `h` in a map of its own as its result. -/
def Copies (h : HealthStore) (nodes : Ref) :
    (Ref → Option (GoMap NodeHealth)) → M Output → Prop
  | mine,.call .getCluster next => Copies h nodes mine (next h.cluster)
  | mine,.call .getNodes next => Copies h nodes mine (next nodes)
  | mine,.call .make next =>
    ∀ r, mine r = none → Copies h nodes (Function.update mine r (some ∅)) (next r)
  | mine,.call (.length m) next => m = nodes ∧ ∀ n, Copies h nodes mine (next n)
  | mine,.call (.keys m) next =>
    m = nodes ∧ ∀ ks : List String, (∀ k, k ∈ ks ↔ k ∈ h.nodes) → Copies h nodes mine (next ks)
  | mine,.call (.load m k) next => m = nodes ∧ Copies h nodes mine (next (h.nodes.lookup k))
  | mine,.call (.store m k v) next =>
    ∃ x, mine m = some x ∧ Copies h nodes (Function.update mine m (some (x.insert k v))) (next ())
  | mine,.call .rUnlock next =>
    ∃ r, mine r = some h.nodes ∧ next () = .done (some (h.cluster,r))
  | _,_ => False

section copies
variable {h : HealthStore} {nodes : Ref} {mine : Ref → Option (GoMap NodeHealth)}

/-- What the loop over the keys `ks` makes of the map `x`. -/
def copied (h : HealthStore) (x : GoMap NodeHealth) : List String → GoMap NodeHealth
  | [] => x
  | k::ks =>
    match h.nodes.lookup k with
    | some v => copied h (x.insert k v) ks
    | none => copied h x ks

theorem lookup_copied (x : GoMap NodeHealth) (ks : List String) (k : String) :
    (copied h x ks).lookup k =
      if k ∈ ks then (h.nodes.lookup k).or (x.lookup k) else x.lookup k := by
  induction ks generalizing x with
  | nil => simp [copied]
  | cons k' ks ih =>
    by_cases hk : k = k'
    · subst hk
      cases hv : h.nodes.lookup k <;> simp [copied,hv,ih]
    · cases hv : h.nodes.lookup k' <;>
        simp [copied,hv,ih,hk,Finmap.lookup_insert_of_ne]

theorem copied_eq {ks : List String} (hks : ∀ k, k ∈ ks ↔ k ∈ h.nodes) :
    copied h ∅ ks = h.nodes := by
  refine Finmap.ext_lookup fun k => ?_
  rw [lookup_copied]
  by_cases hk : k ∈ h.nodes
  · simp [hks,hk]
  · simp [hks,hk,Finmap.lookup_eq_none.mpr hk]

theorem copies_copyEntries {dst : Ref} {x : GoMap NodeHealth} {ks : List String}
    {f : Unit → M Output} (hx : mine dst = some x)
    (hf : Copies h nodes (Function.update mine dst (some (copied h x ks))) (f ())) :
    Copies h nodes mine (copyEntries nodes dst ks >>= f) := by
  induction ks generalizing x mine with
  | nil =>
    have hself : Function.update mine dst (some x) = mine := by
      rw [← hx]
      exact Function.update_eq_self dst mine
    rw [copied,hself] at hf
    exact hf
  | cons k ks ih =>
    refine ⟨rfl,?_⟩
    cases hv : h.nodes.lookup k with
    | none =>
      simp only [copied,hv] at hf
      exact ih hx hf
    | some v =>
      simp only [copied,hv] at hf
      refine ⟨x,hx,ih (Function.update_self ..) ?_⟩
      rw [Function.update_idem]
      exact hf

theorem copies_readCopy : Copies h nodes (fun _ => none) readCopy := by
  refine ⟨rfl,fun n r _ => ⟨rfl,fun ks hks => ?_⟩⟩
  refine copies_copyEntries (Function.update_self ..) ?_
  refine ⟨r,?_,rfl⟩
  rw [Function.update_self,copied_eq hks]

end copies

/-! ## The stages of a call -/

variable {ι : Type}

/-- How far the call of the goroutine `i` is, with the store at the value `h`. The owner of a map
is the only goroutine that may write it; the stored map has none. -/
inductive Stage (w : Memory ι) (h : HealthStore) (owner : Ref → Option ι) (i : ι) (own : List Ref) :
    Option (M Output) → Phase object.Op object.Ret → Prop
  | idle : Stage w h owner i own none .idle
  | updating {cluster r} (mine : owner r = some i) (given : r ∉ own) :
      Stage w h owner i own (some (.call .lock fun _ => .call (.setCluster cluster) fun _ =>
        .call (.setNodes r) fun _ => .call .unlock fun _ => .done none))
        (.called (.update cluster (w.maps r)))
  | locked {cluster r} (holds : w.mu.writer = some i) (mine : owner r = some i) (given : r ∉ own)
      (shown : h = ⟨cluster,w.maps r⟩) :
      Stage w h owner i own (some (.call (.setCluster cluster) fun _ =>
        .call (.setNodes r) fun _ => .call .unlock fun _ => .done none)) (.done none)
  | clusterSet {r} (holds : w.mu.writer = some i) (mine : owner r = some i) (given : r ∉ own)
      (shown : h = ⟨w.cluster,w.maps r⟩) :
      Stage w h owner i own (some (.call (.setNodes r) fun _ => .call .unlock fun _ => .done none))
        (.done none)
  | nodesSet (holds : w.mu.writer = some i) (shown : h = ⟨w.cluster,w.maps w.nodes⟩) :
      Stage w h owner i own (some (.call .unlock fun _ => .done none)) (.done none)
  | updated : Stage w h owner i own (some (.done none)) (.done none)
  | asking : Stage w h owner i own (some (.call .rLock fun _ => readCopy)) (.called .snapshot)
  | reading {p mine} (holds : i ∈ w.mu.readers)
      (mem : ∀ r x, mine r = some x → owner r = some i ∧ w.maps r = x)
      (copies : Copies h w.nodes mine p) :
      Stage w h owner i own (some p) (.done (some h.snapshot))
  | copied {cluster r} (mine : owner r = some i) :
      Stage w h owner i own (some (.done (some (cluster,r)))) (.done (some (cluster,w.maps r)))

/-- What the goroutine `j` relies on is as before. -/
structure Frame (w w' : Memory ι) (h h' : HealthStore) (owner owner' : Ref → Option ι) (j : ι) :
    Prop where
  mine {r} : owner r = some j → owner' r = some j ∧ w'.maps r = w.maps r
  writes : w.mu.writer = some j → w'.mu.writer = some j ∧ w'.cluster = w.cluster ∧
    w'.nodes = w.nodes ∧ w'.maps w.nodes = w.maps w.nodes ∧ h' = h
  reads : j ∈ w.mu.readers → j ∈ w'.mu.readers ∧ w'.nodes = w.nodes ∧ h' = h

theorem Stage.frame {w w' : Memory ι} {h h' : HealthStore} {owner owner' : Ref → Option ι} {j : ι}
    {own : List Ref} {p : Option (M Output)} {ph : Phase object.Op object.Ret}
    (hf : Frame w w' h h' owner owner' j) (hs : Stage w h owner j own p ph) :
    Stage w' h' owner' j own p ph := by
  cases hs with
  | idle => exact .idle
  | updating hm hg =>
    obtain ⟨hm',he⟩ := hf.mine hm
    rw [← he]
    exact .updating hm' hg
  | locked hw hm hg hs =>
    obtain ⟨hm',he⟩ := hf.mine hm
    obtain ⟨hw',-,-,-,hh⟩ := hf.writes hw
    exact .locked hw' hm' hg (by rw [hh,hs,he])
  | clusterSet hw hm hg hs =>
    obtain ⟨hm',he⟩ := hf.mine hm
    obtain ⟨hw',hc,-,-,hh⟩ := hf.writes hw
    exact .clusterSet hw' hm' hg (by rw [hh,hs,he,hc])
  | nodesSet hw hs =>
    obtain ⟨hw',hc,hn,hmap,hh⟩ := hf.writes hw
    exact .nodesSet hw' (by rw [hh,hs,hc,hn,hmap])
  | updated => exact .updated
  | asking => exact .asking
  | reading hr hm hc =>
    obtain ⟨hr',hn,rfl⟩ := hf.reads hr
    refine .reading hr' (fun r x hx => ?_) (hn.symm ▸ hc)
    obtain ⟨ho,he⟩ := hm r x hx
    obtain ⟨ho',he'⟩ := hf.mine ho
    exact ⟨ho',he'.trans he⟩
  | copied hm =>
    obtain ⟨hm',he⟩ := hf.mine hm
    rw [← he]
    exact .copied hm'

/-- The memory and the goroutines, beside the atomic store and its callers. -/
structure Simulates (s : State ι) (a : object.Callers ι) (owner : Ref → Option ι) : Prop where
  allocated {r i} : owner r = some i → r < s.memory.next
  published : s.memory.nodes < s.memory.next ∧ owner s.memory.nodes = none
  shown : s.memory.mu.writer = none →
    a.object = (⟨s.memory.cluster,s.memory.maps s.memory.nodes⟩ : HealthStore)
  own {i r} : r ∈ (s.goroutine i).own → owner r = some i
  stage (i : ι) : Stage s.memory a.object owner i (s.goroutine i).own (s.goroutine i).running
    (a.phase i)

theorem simulates_start : Simulates (State.start ι) (.start object ι) (fun _ => none) where
  allocated := nofun
  published := ⟨Nat.zero_lt_one,rfl⟩
  shown _ := rfl
  own hr := by simp [State.start] at hr
  stage _ := .idle

section step
variable [DecidableEq ι] {s : State ι} {a : object.Callers ι}
  {owner owner' : Ref → Option ι} {i : ι}
  {w : Memory ι} {g : Goroutine} {h : HealthStore} {ph : Phase object.Op object.Ret}

/-- A step of the goroutine `i` that the others do not feel. -/
theorem Simulates.moved (hs : Simulates s a owner)
    (hframe : ∀ j, j ≠ i → Frame s.memory w a.object h owner owner' j)
    (halloc : ∀ {r j}, owner' r = some j → r < w.next)
    (hpub : w.nodes < w.next ∧ owner' w.nodes = none)
    (hshown : w.mu.writer = none → h = ⟨w.cluster,w.maps w.nodes⟩)
    (hown : ∀ r ∈ g.own, owner' r = some i)
    (hstage : Stage w h owner' i g.own g.running ph) :
    Simulates (s.set i w g) ⟨h,Function.update a.phase i ph⟩ owner' where
  allocated := halloc
  published := hpub
  shown := hshown
  own {j r} hr := by
    by_cases hj : j = i
    · subst hj
      simp only [State.set,Function.update_self] at hr
      exact hown r hr
    · simp only [State.set,Function.update_of_ne hj] at hr
      exact ((hframe j hj).mine (hs.own hr)).1
  stage j := by
    by_cases hj : j = i
    · subst hj
      simp only [State.set,Function.update_self]
      exact hstage
    · simp only [State.set,Function.update_of_ne hj]
      exact (hs.stage j).frame (hframe j hj)

end step

/-! ## What the others do not feel -/

section frame
variable {w w' : Memory ι} {h h' : HealthStore} {owner owner' : Ref → Option ι} {i j : ι} {r : Ref}

theorem Frame.refl : Frame w w h h owner owner j :=
  ⟨fun hr => ⟨hr,rfl⟩,fun hw => ⟨hw,rfl,rfl,rfl,rfl⟩,fun hr => ⟨hr,rfl,rfl⟩⟩

/-- A lock that changes hands. -/
theorem Frame.mu {mu : RWMutex ι} (hw : w.mu.writer ≠ some j)
    (hr : j ∈ w.mu.readers → j ∈ mu.readers ∧ h' = h) : Frame w { w with mu } h h' owner owner j :=
  ⟨fun hr => ⟨hr,rfl⟩,fun h => absurd h hw,fun hj => ⟨(hr hj).1,rfl,(hr hj).2⟩⟩

/-- While `i` has the lock the other goroutines rely on nothing but their own maps. -/
theorem Frame.exclusive (hw : w.mu.writer = some i) (hj : j ≠ i)
    (hm : ∀ {r}, owner r = some j → owner' r = some j ∧ w'.maps r = w.maps r) :
    Frame w w' h h' owner owner' j where
  mine := hm
  writes hwj := absurd (Option.some.inj (hwj.symm.trans hw)) hj
  reads hr := absurd hr (RWMutex.no_reader hw)

theorem Frame.setMap (hr : owner r = some i) (hj : j ≠ i) (hpub : owner w.nodes = none)
    (m : GoMap NodeHealth) : Frame w (w.setMap r m) h h owner owner j where
  mine {r'} hr' := by
    refine ⟨hr',Function.update_of_ne ?_ _ _⟩
    rintro rfl
    exact hj (Option.some.inj (hr'.symm.trans hr))
  writes hw := by
    refine ⟨hw,rfl,rfl,Function.update_of_ne ?_ _ _,rfl⟩
    intro he
    rw [he,hr] at hpub
    cases hpub
  reads hr := ⟨hr,rfl,rfl⟩

theorem Frame.alloc (hlt : ∀ {r j}, owner r = some j → r < w.next) (hpub : w.nodes < w.next) :
    Frame w w.alloc h h owner (Function.update owner w.next (some i)) j where
  mine {r} hr := by
    have hne : r ≠ w.next := (hlt hr).ne
    exact ⟨by rw [Function.update_of_ne hne,hr],Function.update_of_ne hne _ _⟩
  writes hw := ⟨hw,rfl,rfl,Function.update_of_ne hpub.ne _ _,rfl⟩
  reads hr := ⟨hr,rfl,rfl⟩

end frame

/-! ## The steps -/

section step
variable [DecidableEq ι] {s : State ι} {a : object.Callers ι}
  {owner owner' : Ref → Option ι} {i : ι}
  {w : Memory ι} {g : Goroutine}

/-- A step that does not show and leaves the store at its value. -/
theorem Simulates.silent (hs : Simulates s a owner)
    (hframe : ∀ j, j ≠ i → Frame s.memory w a.object a.object owner owner' j)
    (halloc : ∀ {r j}, owner' r = some j → r < w.next)
    (hpub : w.nodes < w.next ∧ owner' w.nodes = none)
    (hshown : w.mu.writer = none → a.object = (⟨w.cluster,w.maps w.nodes⟩ : HealthStore))
    (hown : ∀ r ∈ g.own, owner' r = some i)
    (hstage : Stage w a.object owner' i g.own g.running (a.phase i)) :
    Simulates (s.set i w g) a owner' := by
  have hm := hs.moved hframe halloc hpub hshown hown hstage
  rwa [Function.update_eq_self] at hm

theorem Simulates.setMap (hs : Simulates s a owner) {r : Ref} (m : GoMap NodeHealth)
    (hr : owner r = some i) (hown : ∀ r ∈ g.own, owner r = some i)
    (hstage : Stage (s.memory.setMap r m) a.object owner i g.own g.running (a.phase i)) :
    Simulates (s.set i (s.memory.setMap r m) g) a owner := by
  refine hs.silent (fun j hj => .setMap hr hj hs.published.2 m) hs.allocated hs.published ?_ hown
    hstage
  intro hw
  have hne : s.memory.nodes ≠ r := by
    intro he
    have hpub := hs.published.2
    rw [he,hr] at hpub
    cases hpub
  rw [hs.shown hw]
  exact congrArg _ (Function.update_of_ne hne _ _).symm

theorem Simulates.alloc (hs : Simulates s a owner)
    (hown : ∀ r ∈ g.own, r = s.memory.next ∨ owner r = some i)
    (hstage : Stage s.memory.alloc a.object (Function.update owner s.memory.next (some i)) i g.own
      g.running (a.phase i)) :
    Simulates (s.set i s.memory.alloc g) a (Function.update owner s.memory.next (some i)) := by
  have hlt := hs.published.1
  refine hs.silent (fun j _ => .alloc hs.allocated hlt) ?_ ?_ ?_ ?_ hstage
  · intro r j hr
    by_cases hne : r = s.memory.next
    · exact hne ▸ Nat.lt_succ_self _
    · rw [Function.update_of_ne hne] at hr
      exact (hs.allocated hr).trans (Nat.lt_succ_self _)
  · refine ⟨hlt.trans (Nat.lt_succ_self _),?_⟩
    change Function.update owner _ _ s.memory.nodes = none
    rw [Function.update_of_ne hlt.ne,hs.published.2]
  · intro hw
    rw [hs.shown hw]
    exact congrArg _ (Function.update_of_ne hlt.ne _ _).symm
  · intro r hr
    by_cases hne : r = s.memory.next
    · rw [hne,Function.update_self]
    · rw [Function.update_of_ne hne]
      exact (hown r hr).resolve_left hne

/-- An access of a snapshot under the read lock. -/
theorem Simulates.readAccess (hs : Simulates s a owner) {e : Call}
    {next : interface.Answer e → M Output} {r : interface.Answer e}
    {mine : Ref → Option (GoMap NodeHealth)} (hread : i ∈ s.memory.mu.readers)
    (hmem : ∀ r x, mine r = some x → owner r = some i ∧ s.memory.maps r = x)
    (hcopies : Copies a.object s.memory.nodes mine (.call e next))
    (hphase : a.phase i = .done (some (HealthStore.snapshot a.object)))
    (hserves : s.memory.Serves i e r w) : ∃ owner',
      Simulates (s.set i w { s.goroutine i with running := some (next r) }) a owner' := by
  have hshown := hs.shown (RWMutex.no_writer hread)
  have hvalue : s.memory.maps s.memory.nodes = HealthStore.nodes a.object := by rw [hshown]
  -- Only `make`, `store` and the unlocking change anything.
  have hquiet : ∀ {p : M Output}, Copies a.object s.memory.nodes mine p →
      Simulates (s.set i s.memory { s.goroutine i with running := some p }) a owner := by
    intro p hp
    refine hs.silent (fun _ _ => .refl) hs.allocated hs.published hs.shown
      (fun _ hr => hs.own hr) ?_
    rw [hphase]
    exact .reading hread hmem hp
  match e with
  | .getCluster =>
    obtain ⟨rfl,rfl⟩ := hserves
    have hc : s.memory.cluster = HealthStore.cluster a.object := by rw [hshown]
    refine ⟨owner,hquiet ?_⟩
    rw [hc]
    exact hcopies
  | .getNodes =>
    obtain ⟨rfl,rfl⟩ := hserves
    exact ⟨owner,hquiet hcopies⟩
  | .length m =>
    obtain ⟨rfl,rfl⟩ := hserves
    exact ⟨owner,hquiet (hcopies.2 _)⟩
  | .keys m =>
    obtain ⟨rfl,hcopies⟩ := hcopies
    obtain ⟨-,hks,rfl⟩ := hserves
    refine ⟨owner,hquiet (hcopies _ ?_)⟩
    rw [← hvalue]
    exact hks
  | .load m k =>
    obtain ⟨rfl,hcopies⟩ := hcopies
    obtain ⟨rfl,rfl⟩ := hserves
    refine ⟨owner,hquiet ?_⟩
    rw [hvalue]
    exact hcopies
  | .make =>
    obtain ⟨rfl,rfl⟩ := hserves
    have hnew : mine s.memory.next = none := by
      by_contra hne
      obtain ⟨x,hx⟩ := Option.ne_none_iff_exists'.mp hne
      exact lt_irrefl _ (hs.allocated (hmem _ _ hx).1)
    refine ⟨_,hs.alloc (fun _ hr => .inr (hs.own hr)) ?_⟩
    rw [hphase]
    refine .reading hread (fun r x hx => ?_) (hcopies _ hnew)
    by_cases hr : r = s.memory.next
    · subst hr
      rw [Function.update_self] at hx ⊢
      exact ⟨rfl,(Function.update_self ..).trans (Option.some.inj hx)⟩
    · rw [Function.update_of_ne hr] at hx ⊢
      exact ⟨(hmem r x hx).1,(Function.update_of_ne hr _ _).trans (hmem r x hx).2⟩
  | .store m k v =>
    obtain ⟨x,hx,hcopies⟩ := hcopies
    obtain rfl := hserves
    obtain ⟨howner,hmap⟩ := hmem m x hx
    refine ⟨owner,hs.setMap _ howner (fun _ hr => hs.own hr) ?_⟩
    rw [hphase]
    refine .reading hread (fun r y hy => ?_) hcopies
    by_cases hr : r = m
    · subst hr
      rw [Function.update_self] at hy
      refine ⟨howner,(Function.update_self ..).trans ?_⟩
      rw [hmap]
      exact Option.some.inj hy
    · rw [Function.update_of_ne hr] at hy
      exact ⟨(hmem r y hy).1,(Function.update_of_ne hr _ _).trans (hmem r y hy).2⟩
  | .rUnlock =>
    obtain ⟨copy,hcopy,hnext⟩ := hcopies
    obtain ⟨mu,hmu,rfl⟩ := hserves
    obtain ⟨hw,-,-,hreaders⟩ := RWMutex.rUnlock_eq_some hmu
    obtain ⟨howner,hmap⟩ := hmem copy _ hcopy
    refine ⟨owner,hs.silent (fun j hj => .mu (by rw [hw]; exact nofun) fun hjr => ⟨?_,rfl⟩)
      hs.allocated hs.published (fun _ => hshown) (fun _ hr => hs.own hr) ?_⟩
    · rw [hreaders]
      exact (List.mem_erase_of_ne hj).mpr hjr
    · change Stage _ _ _ _ _ (some (next ())) _
      have hst : Stage { s.memory with mu } a.object owner i (s.goroutine i).own
          (some (.done (some (HealthStore.cluster a.object,copy))))
          (.done (some (HealthStore.cluster a.object,s.memory.maps copy))) := .copied howner
      rw [hmap] at hst
      rw [hphase,hnext]
      exact hst
  | .lock | .unlock | .rLock | .setCluster _ | .setNodes _ => exact hcopies.elim

/-- An access of any call. It is the moment of the call's effect if it gets the lock. -/
theorem Simulates.access (hs : Simulates s a owner) {e : Call}
    {next : interface.Answer e → M Output} {r : interface.Answer e}
    (hrun : (s.goroutine i).running = some (.call e next)) (hserves : s.memory.Serves i e r w) :
    ∃ a' owner', Traces object.AtomicStep a [] a' ∧
      Simulates (s.set i w { s.goroutine i with running := some (next r) }) a' owner' := by
  have hst := hs.stage i
  rw [hrun] at hst
  generalize hph : a.phase i = ph at hst
  cases hst with
  | @updating cluster m hm hg =>
    obtain ⟨mu,hmu,rfl⟩ := hserves
    obtain ⟨hw,hr,hw',hr'⟩ := RWMutex.lock_eq_some hmu
    refine ⟨_,owner,.single (l := none) (.effect hph),hs.moved (fun j _ => .mu ?_ ?_) hs.allocated
      hs.published (fun h => ?_) (fun _ hr => hs.own hr) (.locked hw' hm hg rfl)⟩
    · rw [hw]
      exact nofun
    · rw [hr]
      exact nofun
    · rw [hw'] at h
      cases h
  | @locked cluster m hw hm hg hv =>
    obtain rfl := hserves
    refine ⟨a,owner,.refl,hs.silent (fun j hj => .exclusive hw hj fun hr => ⟨hr,rfl⟩) hs.allocated
      hs.published (fun h => ?_) (fun _ hr => hs.own hr) ?_⟩
    · rw [hw] at h
      cases h
    · rw [hph]
      exact .clusterSet hw hm hg hv
  | @clusterSet m hw hm hg hv =>
    obtain rfl := hserves
    -- The map is published: from here on it has no owner.
    refine ⟨a,Function.update owner m none,.refl,hs.silent (fun j hj => .exclusive hw hj ?_) ?_
      ⟨hs.allocated hm,Function.update_self ..⟩ (fun h => ?_) ?_ ?_⟩
    · intro r hr
      refine ⟨?_,rfl⟩
      rw [Function.update_of_ne ?_,hr]
      rintro rfl
      exact hj (Option.some.inj (hr.symm.trans hm))
    · intro r j hr
      by_cases hne : r = m
      · rw [hne,Function.update_self] at hr
        cases hr
      · rw [Function.update_of_ne hne] at hr
        exact hs.allocated hr
    · rw [hw] at h
      cases h
    · intro r hr
      rw [Function.update_of_ne (ne_of_mem_of_not_mem hr hg)]
      exact hs.own hr
    · rw [hph]
      exact .nodesSet hw hv
  | nodesSet hw hv =>
    obtain ⟨mu,hmu,rfl⟩ := hserves
    obtain ⟨-,rfl⟩ := RWMutex.unlock_eq_some hmu
    refine ⟨a,owner,.refl,hs.silent (fun j hj => .exclusive hw hj fun hr => ⟨hr,rfl⟩) hs.allocated
      hs.published (fun _ => hv) (fun _ hr => hs.own hr) ?_⟩
    rw [hph]
    exact .updated
  | asking =>
    obtain ⟨mu,hmu,rfl⟩ := hserves
    obtain ⟨hw,hw',hr'⟩ := RWMutex.rLock_eq_some hmu
    refine ⟨_,owner,.single (l := none) (.effect hph),hs.moved (fun j _ => .mu ?_ ?_) hs.allocated
      hs.published (fun _ => hs.shown hw) (fun _ hr => hs.own hr) ?_⟩
    · rw [hw]
      exact nofun
    · intro hj
      rw [hr']
      exact ⟨List.mem_cons_of_mem _ hj,rfl⟩
    · refine .reading ?_ (fun r x hx => ?_) copies_readCopy
      · rw [hr']
        exact List.mem_cons_self
      · cases hx
  | reading hr hm hc =>
    obtain ⟨owner',ho⟩ := hs.readAccess hr hm hc hph hserves
    exact ⟨a,owner',.refl,ho⟩

/-- The step lemma. -/
theorem Simulates.step (hs : Simulates s a owner) {l : Option (Label ι)} {s' : State ι}
    (hm : Step s l s') :
    ∃ a' owner', Traces object.AtomicStep a l.toList a' ∧ Simulates s' a' owner' := by
  -- Between calls a goroutine is idle on both sides.
  have hidle : ∀ {i}, (s.goroutine i).running = none → a.phase i = .idle := by
    intro i hi
    have hst := hs.stage i
    rw [hi] at hst
    generalize a.phase i = ph at hst
    cases hst
    rfl
  cases hm with
  | @make i hi =>
    refine ⟨a,_,.refl,hs.alloc (fun r hr => ?_) ?_⟩
    · exact (List.mem_cons.mp hr).imp id hs.own
    · rw [hidle hi]
      change Stage _ _ _ _ _ (s.goroutine i).running _
      rw [hi]
      exact .idle
  | @fill i r k v hi hr =>
    refine ⟨a,owner,.refl,hs.setMap _ (hs.own hr) (fun _ hr => hs.own hr) ?_⟩
    rw [hidle hi,hi]
    exact .idle
  | @callUpdate i cluster r hi hr =>
    refine ⟨_,owner,.single (l := some _) (.call (hidle hi)),
      hs.moved (fun _ _ => .refl) hs.allocated
      hs.published hs.shown (fun r' hr' => hs.own (List.mem_of_mem_filter hr')) ?_⟩
    exact .updating (hs.own hr) (by simp)
  | @callSnapshot i hi =>
    exact ⟨_,owner,.single (l := some _) (.call (hidle hi)),hs.moved (fun _ _ => .refl) hs.allocated
      hs.published hs.shown (fun _ hr => hs.own hr) .asking⟩
  | access hrun hserves => exact hs.access hrun hserves
  | @ret i out hrun =>
    have hst := hs.stage i
    rw [hrun] at hst
    generalize hph : a.phase i = ph at hst
    cases hst with
    | updated =>
      exact ⟨_,owner,.single (l := some _) (.ret hph),hs.moved (fun _ _ => .refl) hs.allocated
        hs.published hs.shown (fun _ hr => hs.own hr) .idle⟩
    | @copied cluster r hmine =>
      refine ⟨_,owner,.single (l := some _) (.ret hph),hs.moved (fun _ _ => .refl) hs.allocated
        hs.published hs.shown (fun r' hr' => ?_) .idle⟩
      rcases List.mem_cons.mp hr' with rfl | hr'
      · exact hmine
      · exact hs.own hr'
    | reading _ _ hc => exact hc.elim

end step

/-- A run of the goroutines beside the run of the atomic store that answers it. -/
theorem exists_simulates [DecidableEq ι] {t : List (Label ι)} {s : State ι}
    (h : Traces Step (State.start ι) t s) :
    ∃ a, Traces object.AtomicStep (.start object ι) t a ∧ ∃ owner, Simulates s a owner := by
  refine Traces.simulate (R := fun s a => ∃ owner, Simulates s a owner) ?_ ⟨_,simulates_start⟩ h
  rintro s a l s' ⟨owner,hs⟩ hm
  obtain ⟨a',owner',ht,hs'⟩ := hs.step hm
  exact ⟨a',ht,owner',hs'⟩

/-- Whatever the callers of the store see could have been seen of a store whose updates and
snapshots are atomic. -/
theorem healthStore_linearizable [DecidableEq ι] {t : List (Label ι)} {s : State ι}
    (h : Traces Step (State.start ι) t s) : object.Explains t := by
  obtain ⟨a,ha,-⟩ := exists_simulates h
  exact ⟨a,ha⟩

def readyNode : NodeHealth := ⟨"n1",true,false,false,false,0,0,0,0,0,100,"healthy"⟩

def oneNode : GoMap NodeHealth := (∅ : GoMap NodeHealth).insert "n1" readyNode

theorem mem_oneNode (k : String) : k ∈ ["n1"] ↔ k ∈ oneNode := by
  simp [oneNode,Finmap.notMem_empty]

/-- A snapshot is called, an update runs to its end, and only then the snapshot gets the lock. -/
theorem overlapping_run : ∃ s : State Bool, Traces Step (State.start Bool)
    [.ret false (some ({ totalNodes := 1 },oneNode)),.ret true none,
      .call true (.update { totalNodes := 1 } oneNode),.call false .snapshot] s := by
  have h := Traces.refl.tail (Step.callSnapshot (s := State.start Bool) (i := false) rfl)
  have h := h.tail (Step.make (i := true) rfl)
  have h := h.tail (Step.fill (i := true) (r := 1) (k := "n1") (v := readyNode) rfl
    List.mem_cons_self)
  have h := h.tail (@Step.callUpdate Bool _ _ true { totalNodes := 1 } 1 rfl List.mem_cons_self)
  have h := h.tail (Step.access (i := true) (e := .lock) (r := ()) rfl ⟨_,rfl,rfl⟩)
  have h := h.tail (Step.access (i := true) (e := .setCluster _) (r := ()) rfl rfl)
  have h := h.tail (Step.access (i := true) (e := .setNodes _) (r := ()) rfl rfl)
  have h := h.tail (Step.access (i := true) (e := .unlock) (r := ()) rfl ⟨_,rfl,rfl⟩)
  have h := h.tail (Step.ret (i := true) rfl)
  have h := h.tail (Step.access (i := false) (e := .rLock) (r := ()) rfl ⟨_,rfl,rfl⟩)
  have h := h.tail (Step.access (i := false) (e := .getNodes) rfl ⟨rfl,rfl⟩)
  have h := h.tail (Step.access (i := false) (e := .length _) rfl ⟨rfl,rfl⟩)
  have h := h.tail (Step.access (i := false) (e := .make) rfl ⟨rfl,rfl⟩)
  have h := h.tail (Step.access (i := false) (e := .getNodes) rfl ⟨rfl,rfl⟩)
  have h := h.tail (Step.access (i := false) (e := .keys 1) (r := ["n1"]) rfl
    ⟨List.nodup_singleton _,mem_oneNode,rfl⟩)
  have h := h.tail (Step.access (i := false) (e := .load 1 "n1") rfl ⟨rfl,rfl⟩)
  have h := h.tail (Step.access (i := false) (e := .store 2 "n1" _) (r := ()) rfl rfl)
  have h := h.tail (Step.access (i := false) (e := .getCluster) rfl ⟨rfl,rfl⟩)
  have h := h.tail (Step.access (i := false) (e := .rUnlock) (r := ()) rfl ⟨_,rfl,rfl⟩)
  exact ⟨_,h.tail (Step.ret (i := false) rfl)⟩

theorem healthStore_linearizable_overlapping : object.Explains (ι := Bool)
    [.ret false (some ({ totalNodes := 1 },oneNode)),.ret true none,
      .call true (.update { totalNodes := 1 } oneNode),.call false .snapshot] := by
  obtain ⟨s,h⟩ := overlapping_run
  exact healthStore_linearizable h

/-! ## Data races -/

/-- Who may touch what: the fields under the lock, a map its owner, and the stored one, to read
it, whoever has the read lock. -/
def Grants (w : Memory ι) (owner : Ref → Option ι) (i : ι) : Location × Bool → Prop
  | (.cluster,true) | (.nodes,true) => w.mu.writer = some i
  | (.cluster,false) | (.nodes,false) => i ∈ w.mu.readers
  | (.map r,write) => owner r = some i ∨ owner r = none ∧ write = false

theorem Grants.exclusive {w : Memory ι} {owner : Ref → Option ι} {i j : ι} {x : Location}
    {write write' : Bool} (hi : Grants w owner i (x,write)) (hj : Grants w owner j (x,write'))
    (hw : (write || write') = true) : i = j := by
  have hfield : ∀ {i j : ι}, w.mu.writer = some i → j ∉ w.mu.readers := RWMutex.no_reader
  match x,write,write' with
  | .cluster,true,true | .nodes,true,true => exact Option.some.inj (hi.symm.trans hj)
  | .cluster,true,false | .nodes,true,false => exact absurd hj (hfield hi)
  | .cluster,false,true | .nodes,false,true => exact absurd hi (hfield hj)
  | .map r,_,_ =>
    rcases hi with hi | ⟨hi,rfl⟩ <;> rcases hj with hj | ⟨hj,rfl⟩
    · exact Option.some.inj (hi.symm.trans hj)
    · rw [hi] at hj
      cases hj
    · rw [hi] at hj
      cases hj
    · cases hw

theorem Simulates.grants {s : State ι} {a : object.Callers ι} {owner : Ref → Option ι}
    (hs : Simulates s a owner) {i : ι} {x : Location × Bool} (ht : (s.goroutine i).Touches x) :
    Grants s.memory owner i x := by
  have hst := hs.stage i
  unfold Goroutine.Touches at ht
  split at ht
  · obtain ⟨r,hr,hx⟩ := ht
    obtain ⟨loc,write⟩ := x
    cases hx
    exact .inl (hs.own hr)
  · rename_i e next hrun
    rw [hrun] at hst
    generalize a.phase i = ph at hst
    cases hst with
    | updating | nodesSet | asking => cases ht
    | locked hw | clusterSet hw =>
      cases List.mem_singleton.mp ht
      exact hw
    | @reading _ mine hr hm hc =>
      match e with
      | .getCluster | .getNodes =>
        cases List.mem_singleton.mp ht
        exact hr
      | .length m | .keys m | .load m _ =>
        cases List.mem_singleton.mp ht
        obtain rfl := hc.1
        exact .inr ⟨hs.published.2,rfl⟩
      | .store m k v =>
        cases List.mem_singleton.mp ht
        obtain ⟨y,hy,-⟩ := hc
        exact .inl (hm m y hy).1
      | .make | .rUnlock => cases ht
      | .lock | .unlock | .rLock | .setCluster _ | .setNodes _ => exact hc.elim
  · exact ht.elim

/-- No two goroutines ever come to touch one field or one map of which one is to be written. -/
theorem healthStore_raceFree [DecidableEq ι] {t : List (Label ι)} {s : State ι}
    (h : Traces Step (State.start ι) t s) : ¬s.Race := by
  obtain ⟨a,-,owner,hs⟩ := exists_simulates h
  rintro ⟨i,j,x,write,write',hne,hi,hj,hw⟩
  exact hne ((hs.grants hi).exclusive (hs.grants hj) hw)

theorem healthStore_raceFree_overlapping :
    ∃ (t : List (Label Bool)) (s : State Bool), t.length = 4 ∧ Traces Step (State.start Bool) t s ∧
      ¬s.Race := by
  obtain ⟨s,h⟩ := overlapping_run
  exact ⟨_,s,rfl,h,healthStore_raceFree h⟩

end LosantDevice.Monitor.Shared
