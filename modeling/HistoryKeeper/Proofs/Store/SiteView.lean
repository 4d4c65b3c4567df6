import HistoryKeeper.Proofs.Store.FileView
import HistoryKeeper.Proofs.Store.MemoryStore
import HistoryKeeper.Store.Site

/-!
# Stores of either kind as keepers see them

`AnyStore.view` looks at a store in the way of its kind, and is faithful as those are
(`AnyStore.faithful_view`). A store of one kind is part of its site by an embedding, which carries
over what a call does (`StoreView.Embeds`).
-/

namespace HistoryKeeper

/-- The outcome of a call in a larger state. -/
def carry {ε σ σ' α : Type} (f : σ → σ') : EStateM.Result ε σ α → EStateM.Result ε σ' α
  | .ok v st => .ok v (f st)
  | .error e st => .error e (f st)

namespace StoreView

variable {S W S' W' : Type} {view : StoreView S W} {view' : StoreView S' W'}
  {f : S × W → S' × W'} {st st' : S × W} {name key : String}

/-- What is seen in a larger state is what is seen in a part of it. -/
structure Embeds (view : StoreView S W) (view' : StoreView S' W') (f : S × W → S' × W') : Prop where
  named : view'.Named = view.Named
  sound : ∀ st, view'.Sound (f st) = view.Sound st
  content : ∀ st, view'.content (f st) = view.content st
  caches : ∀ st, view'.Holds (f st).1 = view.Holds st.1

theorem Embeds.same (hf : Embeds view view' f) (h : view.Same st st') :
    view'.Same (f st) (f st') := by
  refine ⟨?_, fun name hname => ?_, fun hc => ?_⟩
  · rw [hf.sound]
    exact h.sound
  · rw [hf.content, hf.content]
    exact h.content name (hf.named ▸ hname)
  · rw [hf.caches] at hc ⊢
    exact h.caches hc

theorem Embeds.changed {g : Entries → Entries} (hf : Embeds view view' f)
    (h : view.Changed name g st st') : view'.Changed name g (f st) (f st') := by
  refine ⟨?_, fun m hm => ?_, fun hc => ?_⟩
  · rw [hf.sound]
    exact h.sound
  · rw [hf.content, hf.content]
    exact h.content m (hf.named ▸ hm)
  · rw [hf.caches] at hc ⊢
    exact h.caches hc

theorem Embeds.opensCache {result : EStateM.Result StoreError (S × W) CacheId}
    (hf : Embeds view view' f) (h : view.OpensCache name st result) :
    view'.OpensCache name (f st) (carry f result) := by
  cases result with
  | ok c st' => exact ⟨hf.same h.1, hf.caches st' ▸ h.2⟩
  | error e st' => exact hf.same h

theorem Embeds.finds {result : EStateM.Result StoreError (S × W) (Option Bytes)}
    (hf : Embeds view view' f) (h : view.Finds name key st result) :
    view'.Finds name key (f st) (carry f result) := by
  cases result with
  | ok v st' => exact ⟨hf.same h.1, hf.content st ▸ h.2⟩
  | error e st' => exact hf.same h

theorem Embeds.makes {change : Change} {result : EStateM.Result StoreError (S × W) Unit}
    (hf : Embeds view view' f) (h : view.Makes name key change st result) :
    view'.Makes name key change (f st) (carry f result) := by
  cases result with
  | ok v st' => exact hf.changed h
  | error e st' => exact hf.same h

theorem Embeds.invisible {α : Type} {call : StoreCall S W α} {call' : StoreCall S' W' α}
    (hf : Embeds view view' f) (hcall : ∀ st, call' (f st) = carry f (call st))
    (h : Leads view.Invisible call) (st : S × W) : view'.Invisible (f st) (endState (call' (f st))) := by
  intro hst
  have hsame := h st (hf.sound st ▸ hst)
  rw [hcall]
  cases hr : call st <;>
  · rw [hr] at hsame
    exact hf.same hsame

end StoreView

namespace AnyStore

open StoreView (Embeds)

variable {names : String → Prop} {dir : Path} {kind : StoreKind} {timeout : Duration}
  {site site' : Site} {st : AnyStore × Site}

/-- Each name has a file of its own. -/
def DistinctFiles (kind : StoreKind) (dir : Path) (names : String → Prop) (site : Site) : Prop :=
  match kind with
  | .memory => MemoryStore.DistinctNames names
  | .file => FileStore.DistinctFiles dir names site.disk

/-- What stores of a kind find: nothing in memory, and what is there on disk. -/
def initial (kind : StoreKind) (dir : Path) (site : Site) (name : String) : CacheContent :=
  match kind with
  | .memory => .ok []
  | .file => CacheFile.kept (cachePath dir name) site.disk

theorem ordered_initial {name : String} {entries : Entries}
    (h : initial kind dir site name = .ok entries) : entries.Ordered := by
  cases kind with
  | memory =>
    cases h
    exact List.Pairwise.nil
  | file => exact CacheFile.ordered_of_kept h

def SoundIn (dir : Path) (names : String → Prop) : AnyStore × Site → Prop
  | (memory s, site) => (MemoryStore.view names).Sound (s, site.probe)
  | (file s, site) => (FileStore.view dir names).Sound (s, site.disk)

def contentIn (dir : Path) (names : String → Prop) : AnyStore × Site → String → CacheContent
  | (memory s, site) => (MemoryStore.view names).content (s, site.probe)
  | (file s, site) => (FileStore.view dir names).content (s, site.disk)

def HoldsIn (dir : Path) (names : String → Prop) : AnyStore → CacheId → String → Prop
  | memory s => (MemoryStore.view names).Holds s
  | file s => (FileStore.view dir names).Holds s

def view (dir : Path) (names : String → Prop) : StoreView AnyStore Site where
  Named := names
  Sound := SoundIn dir names
  content := contentIn dir names
  Holds := HoldsIn dir names
  others site site' := site'.disk.nodes = site.disk.nodes ∧ site'.disk.home = site.disk.home

def inMemory (disk : Disk) (st : MemoryStore × Probe) : AnyStore × Site :=
  (memory st.1, { disk, probe := st.2 })

def onDisk (probe : Probe) (st : FileStore × Disk) : AnyStore × Site :=
  (file st.1, { disk := st.2, probe })

theorem embeds_inMemory (dir : Path) (names : String → Prop) (disk : Disk) :
    Embeds (MemoryStore.view names) (view dir names) (inMemory disk) :=
  ⟨rfl, fun _ => rfl, fun _ => rfl, fun _ => rfl⟩

theorem embeds_onDisk (dir : Path) (names : String → Prop) (probe : Probe) :
    Embeds (FileStore.view dir names) (view dir names) (onDisk probe) :=
  ⟨rfl, fun _ => rfl, fun _ => rfl, fun _ => rfl⟩

theorem call_inMemory {α : Type} (onMemory : MemoryStore.Call α) (onFile : FileStore.Call α)
    (disk : Disk) (st : MemoryStore × Probe) :
    call onMemory onFile (inMemory disk st) = carry (inMemory disk) (onMemory st) := by
  obtain ⟨s, probe⟩ := st
  unfold call inMemory
  simp only
  cases onMemory (s, probe) <;> rfl

theorem call_onDisk {α : Type} (onMemory : MemoryStore.Call α) (onFile : FileStore.Call α)
    (probe : Probe) (st : FileStore × Disk) :
    call onMemory onFile (onDisk probe st) = carry (onDisk probe) (onFile st) := by
  obtain ⟨s, disk⟩ := st
  unfold call onDisk
  simp only
  cases onFile (s, disk) <;> rfl

/-! ### Calls -/

theorem invisible_call {α : Type} {onMemory : MemoryStore.Call α} {onFile : FileStore.Call α}
    (hmemory : Leads (MemoryStore.view names).Invisible onMemory)
    (hfile : Leads (FileStore.view dir names).Invisible onFile) :
    Leads (view dir names).Invisible (call onMemory onFile) := by
  rintro ⟨s | s, site⟩
  · exact (embeds_inMemory dir names site.disk).invisible (call_inMemory onMemory onFile site.disk)
      hmemory (s, site.probe)
  · exact (embeds_onDisk dir names site.probe).invisible (call_onDisk onMemory onFile site.probe)
      hfile (s, site.disk)

theorem opensCache {name : String} (h : SoundIn dir names st) (hname : names name) :
    (view dir names).OpensCache name st
      (Store.openCache (cachePath (Store.baseDir st.1) name) st) := by
  obtain ⟨s | s, site⟩ := st
  · have hcall := call_inMemory (MemoryStore.openCache (cachePath MemoryStore.baseDir name))
      (FileStore.openCache (cachePath MemoryStore.baseDir name)) site.disk (s, site.probe)
    have hopens := (embeds_inMemory dir names site.disk).opensCache (MemoryStore.opensCache h name)
    rw [← hcall] at hopens
    exact hopens
  · have hcall := call_onDisk (MemoryStore.openCache (cachePath s.baseDir name))
      (FileStore.openCache (cachePath s.baseDir name)) site.probe (s, site.disk)
    have hopens := (embeds_onDisk dir names site.probe).opensCache
      (FileStore.Keeps.opensCache h hname)
    rw [← hcall] at hopens
    exact hopens

theorem finds {name : String} {c : CacheId} (h : SoundIn dir names st)
    (hc : HoldsIn dir names st.1 c name) (key : String) :
    (view dir names).Finds name key st (Store.get c key st) := by
  obtain ⟨s | s, site⟩ := st
  · have hcall := call_inMemory (MemoryStore.lookup c key) (FileStore.lookup c key) site.disk
      (s, site.probe)
    have hfinds := (embeds_inMemory dir names site.disk).finds (MemoryStore.finds h hc key)
    rw [← hcall] at hfinds
    exact hfinds
  · have hcall := call_onDisk (MemoryStore.lookup c key) (FileStore.lookup c key) site.probe
      (s, site.disk)
    have hfinds := (embeds_onDisk dir names site.probe).finds (FileStore.Keeps.finds h hc key)
    rw [← hcall] at hfinds
    exact hfinds

theorem makes {name : String} {c : CacheId} (h : SoundIn dir names st) (hname : names name)
    (hc : HoldsIn dir names st.1 c name) (key : String) (change : Change) :
    (view dir names).Makes name key change st (change.call c key st) := by
  have hchange : (change.call c key : Call Unit) = call (change.call c key) (change.call c key) := by
    cases change <;> rfl
  rw [hchange]
  obtain ⟨s | s, site⟩ := st
  · have hcall := call_inMemory (change.call c key) (change.call c key) site.disk (s, site.probe)
    have hmakes := (embeds_inMemory dir names site.disk).makes
      (MemoryStore.makes h hname hc key change)
    rw [← hcall] at hmakes
    exact hmakes
  · have hcall := call_onDisk (change.call c key) (change.call c key) site.probe (s, site.disk)
    have hmakes := (embeds_onDisk dir names site.probe).makes
      (FileStore.Keeps.makes h hname hc key change)
    rw [← hcall] at hmakes
    exact hmakes

theorem same_others {s : AnyStore} (h : SoundIn dir names (s, site))
    (hnodes : site'.disk.nodes = site.disk.nodes) (hhome : site'.disk.home = site.disk.home) :
    (view dir names).Same (s, site) (s, site') := by
  cases s with
  | memory s =>
    have hsame : (MemoryStore.view names).Same (s, site.probe) (s, site'.probe) :=
      MemoryStore.same_of_caches h rfl
    exact ⟨hsame.sound, hsame.content, hsame.caches⟩
  | file s =>
    have hsame := (FileStore.faithful_view dir names).others h ⟨hnodes, hhome⟩
    exact ⟨hsame.sound, hsame.content, hsame.caches⟩

theorem faithful_view (dir : Path) (names : String → Prop) : (view dir names).Faithful := by
  have hmemory := MemoryStore.faithful_view names
  have hfile := FileStore.faithful_view dir names
  refine ⟨invisible_call hmemory.enter hfile.enter, invisible_call hmemory.leave hfile.leave,
    invisible_call hmemory.release hfile.release,
    invisible_call hmemory.reacquire hfile.reacquire, fun h hname => opensCache h hname,
    fun h _ hc key => finds h hc key, fun h hname hc key change => makes h hname hc key change,
    fun h hothers => same_others h hothers.1 hothers.2⟩

end AnyStore

end HistoryKeeper
