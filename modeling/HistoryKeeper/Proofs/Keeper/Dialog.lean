import HistoryKeeper.Keeper.Controller
import HistoryKeeper.Proofs.Keeper.Calls
import HistoryKeeper.Proofs.Keeper.Handles
import HistoryKeeper.Proofs.Keeper.Serving

/-!
# Dialogs

A `Dialog` is what a program with one thread does with a controller: it declares caches, with or
without success, starts the keeper, and puts, removes and gets through the handles that it has, one
call after the other. The keeper acts at any time, also in the middle of a call, and so does the
world.

`Dialog.Orderly` ties the controller to what the program has done: what was sent to the keeper is
what the calls have asked for, in their order. A dialog is orderly until a call on the store fails
(`Dialog.orderly`), and the results of its calls are what they have to be (`Dialog.Underway`).
-/

namespace HistoryKeeper

variable {S W : Type}

/-- A handle with its types. -/
structure SomeHandle where
  {key : ValueType}
  {codec : Codec}
  handle : Handle key codec

/-- A call that a program makes. -/
inductive Errand where
  | start
  | get {key : ValueType} {codec : Codec} (h : Handle key codec) (k : key.Carrier)
  | write (w : TypedWrite)

namespace Controller

/-- A call begins. -/
def call (c : Controller S W) (call : Call) : Controller S W :=
  { c with service := { c.service with calls := c.service.calls ++ [call] } }

def withSystem (c : Controller S W) (system : System S W) : Controller S W :=
  { c with service := { c.service with system } }

/-- See the call that has begun through to its end. -/
def seeThrough [Store S W] (c : Controller S W) : Controller S W :=
  { c with service := c.service.completeWithin (c.service.effort + 16) 0 }

/-- What the call, a get, returns. -/
def answer (c : Controller S W) (codec : Codec) : Except CacheError (Option codec.Carrier) :=
  codec.decodeAnswer <|
    match (c.service.result? 0).getD (.error .keeperPanicked) with
    | .ok (.value v) => .ok v
    | .ok _ => .ok none
    | .error e => .error e

end Controller

namespace Errand

/-- The keeper has been started, and the handle that is used was declared. -/
def Allowed (declared : List SomeHandle) (c : Controller S W) : Errand → Prop
  | start => True
  | @get key _ h k => c.status.started = true ∧ ⟨h⟩ ∈ declared ∧ key.Storable k
  | write w => c.status.started = true ∧ ⟨w.handle⟩ ∈ declared ∧ w.Storable

def begin (c : Controller S W) : Errand → Controller S W
  | start => c.call .starting
  | get h k =>
    { c with nextToken := c.nextToken + 1 }.call (.asking (h.readRequest k ⟨c.nextToken⟩))
  | write w => c.call (.asking w.request)

def written : Errand → List TypedWrite
  | write w => [w]
  | _ => []

end Errand

/-- A dialog, with the handles that were declared, the writes that were made, the oldest first, and
the call that is being made, if there is one. -/
inductive Dialog [Store S W] (others : W → W → Prop) (first : Controller S W) :
    List SomeHandle → List TypedWrite → Option Errand → Controller S W → Prop
  | first : Dialog others first [] [] none first
  | declare {declared written errand c c'} (name : String) (key : ValueType) (codec : Codec)
      {h : Handle key codec} : Dialog others first declared written errand c →
      c.declare name key codec = (.ok h, c') →
      Dialog others first (⟨h⟩ :: declared) written errand c'
  | refuse {declared written errand c c' e} (name : String) (key : ValueType) (codec : Codec) :
      Dialog others first declared written errand c → c.declare name key codec = (.error e, c') →
      Dialog others first declared written errand c'
  | begin {declared written c} (errand : Errand) : Dialog others first declared written none c →
      errand.Allowed declared c → Dialog others first declared written (some errand) (errand.begin c)
  /-- The call acts. -/
  | call {declared written errand c service} :
      Dialog others first declared written (some errand) c → c.service.callStep 0 = some service →
      Dialog others first declared written (some errand) { c with service }
  /-- The call has returned. -/
  | finish {declared written errand c result} :
      Dialog others first declared written (some errand) c → c.service.calls = [.returned result] →
      Dialog others first declared (written ++ errand.written) none
        { c with service := { c.service with calls := [] } }
  | keeper {declared written errand c service} : Dialog others first declared written errand c →
      c.service.keeperStep none = some service →
      Dialog others first declared written errand { c with service }
  | tick {declared written errand c} (nanos : Nat) :
      Dialog others first declared written errand c →
      Dialog others first declared written errand (c.withSystem (c.service.system.tick nanos))
  | change {declared written errand c} (f : W → W) :
      Dialog others first declared written errand c → others c.world (f c.world) →
      Dialog others first declared written errand (c.change f)

/-- A keeper that runs and was not stopped accepts requests. -/
theorem Status.checkAccepting_ok {s : Status} (hstarted : s.started = true)
    (hstop : s.stopRequested = false) (hfailed : s.failed = false) (hstopped : s.stopped = false) :
    s.checkAccepting = .ok () := by
  rw [Status.checkAccepting, hstarted, hstop, hfailed, hstopped]
  rfl

/-- A call leaves its traces in the inbox and in the status only. -/
theorem Service.callStep_system {s s' : Service S W} {i : CallId} (h : s.callStep i = some s') :
    s'.system.stage = s.system.stage ∧ s'.system.log = s.system.log ∧
      s'.system.clock = s.system.clock := by
  cases acts_of_callStep h <;> exact ⟨rfl, rfl, rfl⟩

theorem System.outcome?_of_prefix {s : System S W} {token : Token} {value : Option Bytes}
    {answers : List (Token × Option Bytes)} {result : Except CacheError (Option Bytes)}
    (hdropped : s.dropped = []) (hanswers : s.answers <+: answers ++ [(token, value)])
    (hfresh : token ∉ answers.map (·.1)) (hresult : s.outcome? token = some result) :
    result = .ok value := by
  have hnone : ∀ {l}, l <+: answers → l.find? (·.1 = token) = none := by
    intro l hl
    refine List.find?_eq_none.mpr fun x hx he => hfresh ?_
    exact List.mem_map.mpr ⟨x, hl.subset hx, of_decide_eq_true he⟩
  unfold System.outcome? at hresult
  rcases List.prefix_concat_iff.mp hanswers with hall | hpart
  · have hself : [(token, value)].find? (·.1 = token) = some (token, value) :=
      List.find?_cons_of_pos (decide_eq_true rfl)
    rw [hall, List.find?_append, hnone List.prefix_rfl, Option.none_or, hself] at hresult
    exact (Option.some.inj hresult).symm
  · rw [hnone hpart, hdropped] at hresult
    cases hresult

/-! ### Errands -/

namespace Errand

/-- The call is made through a handle that was declared, on a cache in use. -/
def Sound (names : String → Prop) (r : Registry) : Errand → Prop
  | start => True
  | @get key _ h k => names h.identity.name ∧ h.Declared r ∧ key.Storable k
  | write w => names w.handle.identity.name ∧ w.handle.Declared r ∧ w.Storable

/-- The request that the call makes. The tokens of reads are new, and used up. -/
def Asks (past : List Request) (nextToken : Nat) : Errand → Request → Prop
  | start, _ => False
  | @get key _ h k, request => ∃ text token, encodeKey key k = .ok text ∧
      request = .read ⟨token, h.identity, text⟩ ∧ token ∉ Request.readTokens past ∧
        token.number < nextToken
  | write w, request => ∃ p, w.request = .ok (.write p) ∧ request = .write p ∧
      p.cache = w.handle.identity

variable {names : String → Prop} {r r' : Registry} {errand : Errand} {past : List Request}
  {nextToken : Nat} {request : Request}

theorem Sound.extends (h : errand.Sound names r) (hr : r.Extends r') : errand.Sound names r' := by
  cases errand with
  | start => trivial
  | get h' k => exact ⟨h.1, h.2.1.extends hr, h.2.2⟩
  | write w => exact ⟨h.1, h.2.1.extends hr, h.2.2⟩

theorem Asks.ne_stop (h : errand.Asks past nextToken request) : request ≠ .stop := by
  rintro rfl
  cases errand with
  | start => exact h
  | get h' k => obtain ⟨_, _, -, hread, -⟩ := h; cases hread
  | write w => obtain ⟨_, -, hwrite, -⟩ := h; cases hwrite

theorem Asks.named (h : errand.Asks past nextToken request) (hs : errand.Sound names r) :
    request.Names names := by
  cases errand with
  | start => exact h.elim
  | get h' k =>
    obtain ⟨_, _, -, rfl, -⟩ := h
    exact hs.1
  | write w =>
    obtain ⟨p, -, rfl, hcache⟩ := h
    show names p.cache.name
    rw [hcache]
    exact hs.1

theorem Asks.tokens (h : errand.Asks past nextToken request) :
    ∀ t ∈ Request.readTokens [request], t.number < nextToken := by
  intro t ht
  cases errand with
  | start => exact h.elim
  | get h' k =>
    obtain ⟨_, token, -, rfl, -, htoken⟩ := h
    rw [List.mem_singleton.mp ht]
    exact htoken
  | write w =>
    obtain ⟨p, -, rfl, -⟩ := h
    cases ht

theorem Sound.begin {c : Controller S W} (h : errand.Sound names r) (hstart : errand ≠ .start)
    (htokens : ∀ t ∈ Request.readTokens past, t.number < c.nextToken) :
    ∃ request, (errand.begin c).service.calls = c.service.calls ++ [.asking (.ok request)] ∧
      errand.Asks past (errand.begin c).nextToken request := by
  cases errand with
  | start => exact absurd rfl hstart
  | @get key codec h' k =>
    obtain ⟨text, htext⟩ := encodeKey_of_storable h.2.2
    refine ⟨.read ⟨⟨c.nextToken⟩, h'.identity, text⟩, ?_, text, ⟨c.nextToken⟩, htext, rfl,
      fun hmem => Nat.lt_irrefl _ (htokens _ hmem), Nat.lt_succ_self _⟩
    show _ ++ [Call.asking (h'.readRequest k ⟨c.nextToken⟩)] = _
    unfold Handle.readRequest
    rw [htext]
    rfl
  | write w =>
    obtain ⟨p, hp, hcache, -⟩ := h.2.2.stored
    refine ⟨.write p, ?_, p, hp, rfl, hcache⟩
    show _ ++ [Call.asking w.request] = _
    rw [hp]

end Errand

namespace Dialog

/-- A start is being made. -/
def Starts (s : Service S W) : Call → Prop
  | .starting | .spawning | .returned _ => True
  | .registering | .marking => s.running = true
  | _ => False

/-- How far the call has come, with what was sent until the last one and until now. -/
inductive Underway (initial : String → CacheContent) (past : List Request) (c : Controller S W) :
    Option Errand → List Request → Prop
  | idle : c.service.calls = [] → Underway initial past c none past
  | starting {call} : c.service.calls = [call] → Starts c.service call →
      Underway initial past c (some .start) past
  | asking {errand request} : c.service.calls = [.asking (.ok request)] →
      c.status.started = true → errand.Asks past c.nextToken request →
      Underway initial past c (some errand) past
  | sending {errand request} : c.service.calls = [.sending request] →
      c.status.started = true → errand.Asks past c.nextToken request →
      Underway initial past c (some errand) past
  | awaiting {key codec} {h : Handle key codec} {k read since} :
      c.service.calls = [.awaiting read.token since] → c.status.started = true →
      (Errand.get h k).Asks past c.nextToken (.read read) →
      Underway initial past c (some (.get h k)) (past ++ [.read read])
  | answered {key codec} {h : Handle key codec} {k read} :
      c.service.calls =
        [.returned (.ok (.value (read.valueAfter initial (Request.writes past))))] →
      (Errand.get h k).Asks past c.nextToken (.read read) →
      Underway initial past c (some (.get h k)) (past ++ [.read read])
  | written {w p} : c.service.calls = [.returned (.ok .done)] →
      (Errand.write w).Asks past c.nextToken (.write p) →
      Underway initial past c (some (.write w)) (past ++ [.write p])

/-- The keeper serves, and what it was sent is what the program has asked for. -/
structure Orderly [Store S W] (others : W → W → Prop) (first : Controller S W)
    (names : String → Prop) (declared : List SomeHandle) (written : List TypedWrite)
    (errand : Option Errand) (c : Controller S W) (past sent : List Request) : Prop where
  wellNamed : c.registry.WellNamed
  declared : ∀ h ∈ declared, h.handle.Declared c.registry
  sound : ∀ {e}, errand = some e → e.Sound names c.registry
  storable : ∀ w ∈ written, w.Storable ∧ w.handle.Declared c.registry
  stored : Request.writes past = written.filterMap TypedWrite.stored?
  run : System.Run ⟨fun _ interference => interference = none, others⟩ first.service.system sent
    c.service.system
  named : ∀ r ∈ sent, r.Names names
  tokens : ∀ t ∈ Request.readTokens sent, t.number < c.nextToken
  serving : c.service.system.Serving
  unstopped : c.status.stopRequested = false
  running : c.status.started = true → c.service.running = true

section
variable [Store S W] {view : StoreView S W} {initial : String → CacheContent} {Ready : W → Prop}
  {others : W → W → Prop} {first c c' : Controller S W} {names : String → Prop}
  {declared : List SomeHandle} {written : List TypedWrite} {errand : Errand}
  {doing : Option Errand} {past sent : List Request} {service : Service S W}

/-- What a dialog is founded on. -/
structure Grounds (view : StoreView S W) (initial : String → CacheContent) (Ready : W → Prop)
    (others : W → W → Prop) (first : Controller S W) : Prop where
  faithful : view.Faithful
  allowed : ∀ w w', others w w' → view.others w w'
  ordered : ∀ {name entries}, initial name = .ok entries → entries.Ordered
  consistent : System.Consistent view initial Ready [] first.service.system
  lookup : first.service.system.keeper.pendingLookup = true
  idles : first.service.system.Idles
  calls : first.service.calls = []
  orderly : Orderly others first view.Named [] [] none first [] []

theorem Orderly.consistent (hg : Grounds view initial Ready others first)
    (h : Orderly others first view.Named declared written doing c past sent) :
    System.Consistent view initial Ready sent c.service.system :=
  h.run.consistent hg.faithful hg.allowed hg.ordered hg.consistent h.named

theorem Orderly.lookup (hg : Grounds view initial Ready others first)
    (h : Orderly others first names declared written doing c past sent) :
    c.service.system.keeper.pendingLookup = true :=
  h.run.pendingLookup.trans hg.lookup

theorem Orderly.accepts (h : Orderly others first names declared written doing c past sent)
    (hstarted : c.status.started = true) : c.status.checkAccepting = .ok () :=
  Status.checkAccepting_ok hstarted h.unstopped h.serving.calm.unfailed h.serving.calm.unended

/-- All that has changed is what callers note, and how far the calls are. -/
theorem Orderly.noted {status : Status} {startedAt : Instant}
    (h : Orderly others first names declared written doing c past sent)
    (hsystem : service.system = { c.service.system with status, startedAt })
    (hstop : status.stopRequested = c.status.stopRequested)
    (hfailed : status.failed = c.status.failed) (hstopped : status.stopped = c.status.stopped)
    (hrunning : status.started = true → service.running = true) :
    Orderly others first names declared written doing { c with service } past sent := by
  have hcalm := h.serving.calm
  refine ⟨h.wellNamed, h.declared, h.sound, h.storable, h.stored, ?_, h.named, h.tokens, ?_, ?_, ?_⟩
  · show System.Run _ _ _ service.system
    rw [hsystem]
    exact h.run.note status startedAt
  · show service.system.Serving
    rw [hsystem]
    exact h.serving.later ⟨hcalm.hasSenders, hcalm.hasReceiver, hcalm.noStop, hcalm.unstopped,
      hcalm.dropped, hfailed.trans hcalm.unfailed, hstopped.trans hcalm.unended⟩ rfl rfl
      (Nat.le_refl _)
  · show service.system.status.stopRequested = false
    rw [hsystem]
    exact hstop.trans h.unstopped
  · show service.system.status.started = true → _
    rw [hsystem]
    exact hrunning

/-! ### The call acts -/

theorem Orderly.starts {call : Call}
    (h : Orderly others first names declared written (some .start) c past past)
    (hcalls : c.service.calls = [call]) (hstarts : Starts c.service call)
    (hstep : c.service.callStep 0 = some service) :
    Orderly others first names declared written (some .start) { c with service } past past ∧
      ∃ call', service.calls = [call'] ∧ Starts service call' := by
  have hcall : c.service.calls[0]? = some call := by rw [hcalls]; rfl
  have hset : ∀ call', c.service.calls.set 0 call' = [call'] := fun _ => by rw [hcalls]; rfl
  cases Service.acts_of_callStep hstep with
  | tooLate | launches =>
    exact ⟨h.noted rfl rfl rfl rfl h.running, _, hset _, by exact trivial⟩
  | spawned => exact ⟨h.noted rfl rfl rfl rfl fun _ => rfl, _, hset _, rfl⟩
  | registered hc =>
    rw [hcall] at hc
    cases hc
    exact ⟨h.noted rfl rfl rfl rfl h.running, _, hset _, hstarts⟩
  | started hc =>
    rw [hcall] at hc
    cases hc
    exact ⟨h.noted rfl rfl rfl rfl fun _ => hstarts, _, hset _, trivial⟩
  | _ hc =>
    rw [hcall] at hc
    cases hc
    exact hstarts.elim

theorem Orderly.sends {request : Request} {inbox : Inbox}
    (h : Orderly others first names declared written (some errand) c past past)
    (hasks : errand.Asks past c.nextToken request)
    (hsend : c.service.system.inbox.send request = some inbox)
    (hsystem : service.system = { c.service.system with inbox })
    (hrunning : service.running = c.service.running) :
    Orderly others first names declared written (some errand) { c with service } past
      (past ++ [request]) := by
  have hsent : c.service.system.send request = some service.system := by
    rw [System.send, hsend, hsystem]
    rfl
  have hcalm := h.serving.calm.send hasks.ne_stop hsent
  refine ⟨h.wellNamed, h.declared, h.sound, h.storable, h.stored, h.run.send hsent, fun r hr => ?_,
    fun t ht => ?_, ?_, ?_, ?_⟩
  · rcases List.mem_append.mp hr with hr | hr
    · exact h.named r hr
    · rw [List.mem_singleton.mp hr]
      exact hasks.named (h.sound rfl)
  · rw [Request.readTokens_append] at ht
    rcases List.mem_append.mp ht with ht | ht
    · exact h.tokens t ht
    · exact hasks.tokens t ht
  · exact h.serving.later hcalm (by rw [hsystem]) (by rw [hsystem]) (by rw [hsystem])
  · show service.system.status.stopRequested = false
    rw [hsystem]
    exact h.unstopped
  · show service.system.status.started = true → service.running = true
    rw [hsystem, hrunning]
    exact h.running

/-- The caller of a read that was answered has got what the key holds after the writes before it. -/
theorem Orderly.outcome {key : ValueType} {codec : Codec} {h : Handle key codec} {k : key.Carrier}
    {read : PendingRead} {result : Except CacheError (Option Bytes)}
    (hg : Grounds view initial Ready others first)
    (ho : Orderly others first view.Named declared written doing c past (past ++ [.read read]))
    (hasks : (Errand.get h k).Asks past c.nextToken (.read read))
    (hresult : c.service.system.outcome? read.token = some result) :
    result = .ok (read.valueAfter initial (Request.writes past)) := by
  have hanswers := (ho.consistent hg).past.answers (ho.lookup hg)
  rw [Request.answersInOrder_append] at hanswers
  refine System.outcome?_of_prefix ho.serving.calm.dropped hanswers ?_ hresult
  rw [Request.tokens_answersInOrder]
  obtain ⟨_, _, -, he, hfresh, -⟩ := hasks
  cases he
  exact hfresh

theorem Orderly.acts (hg : Grounds view initial Ready others first)
    (h : Orderly others first view.Named declared written (some errand) c past sent)
    (hunderway : Underway initial past c (some errand) sent)
    (hstep : c.service.callStep 0 = some service) :
    ∃ sent', Orderly others first view.Named declared written (some errand) { c with service } past
      sent' ∧ Underway initial past { c with service } (some errand) sent' := by
  have hset : ∀ {call call'}, c.service.calls = [call] → c.service.calls.set 0 call' = [call'] :=
    fun hcalls => by rw [hcalls]; rfl
  have hfirst : ∀ {call}, c.service.calls = [call] → c.service.calls[0]? = some call :=
    fun hcalls => by rw [hcalls]; rfl
  cases hunderway with
  | starting hcalls hstarts =>
    obtain ⟨hnext, call', hcalls', hstarts'⟩ := h.starts hcalls hstarts hstep
    exact ⟨past, hnext, .starting hcalls' hstarts'⟩
  | asking hcalls hstarted hasks =>
    cases Service.acts_of_callStep hstep with
    | refused hc hrefused =>
      have haccepts := h.accepts hstarted
      rw [show c.status.checkAccepting = _ from hrefused] at haccepts
      cases haccepts
    | unencoded hc =>
      rw [hfirst hcalls] at hc
      cases hc
    | accepted hc =>
      rw [hfirst hcalls] at hc
      cases hc
      exact ⟨past, h.noted rfl rfl rfl rfl h.running, .sending (hset hcalls) hstarted hasks⟩
    | _ hc =>
      rw [hfirst hcalls] at hc
      cases hc
  | sending hcalls hstarted hasks =>
    cases Service.acts_of_callStep hstep with
    | unsent hc hsend =>
      rw [Inbox.send, if_pos h.serving.calm.hasReceiver] at hsend
      cases hsend
    | sentRead hc hsend =>
      rw [hfirst hcalls] at hc
      cases hc
      cases errand with
      | start => exact hasks.elim
      | get h' k =>
        exact ⟨_, h.sends hasks hsend rfl rfl, .awaiting (hset hcalls) hstarted hasks⟩
      | write w => obtain ⟨_, -, he, -⟩ := hasks; cases he
    | sent hc hread hsend =>
      rw [hfirst hcalls] at hc
      cases hc
      cases errand with
      | start => exact hasks.elim
      | get h' k => obtain ⟨_, _, -, he, -⟩ := hasks; exact absurd he (hread _)
      | write w =>
        have hwrite := hasks
        obtain ⟨p, -, rfl, -⟩ := hwrite
        exact ⟨_, h.sends hasks hsend rfl rfl, .written (hset hcalls) hasks⟩
    | _ hc =>
      rw [hfirst hcalls] at hc
      cases hc
  | awaiting hcalls hstarted hasks =>
    cases Service.acts_of_callStep hstep with
    | got hc hresult =>
      rw [hfirst hcalls] at hc
      cases hc
      rw [h.outcome hg hasks hresult] at hstep ⊢
      exact ⟨_, h.noted rfl rfl rfl rfl h.running, .answered (hset hcalls) hasks⟩
    | _ hc =>
      rw [hfirst hcalls] at hc
      cases hc
  | answered hcalls | written hcalls =>
    unfold Service.callStep at hstep
    rw [hfirst hcalls] at hstep
    cases hstep

/-! ### Calls begin and end -/

theorem Orderly.begins {e : Errand} (h : Orderly others first names declared written none c past past)
    (hcalls : c.service.calls = []) (hallowed : e.Allowed declared c)
    (hnames : ∀ h ∈ declared, names h.handle.identity.name) :
    Orderly others first names declared written (some e) (e.begin c) past past ∧
      Underway initial past (e.begin c) (some e) past := by
  have hsound : e.Sound names c.registry := by
    cases e with
    | start => exact trivial
    | get h' k => exact ⟨hnames _ hallowed.2.1, h.declared _ hallowed.2.1, hallowed.2.2⟩
    | write w => exact ⟨hnames _ hallowed.2.1, h.declared _ hallowed.2.1, hallowed.2.2⟩
  refine ⟨?_, ?_⟩
  · have hregistry : (e.begin c).registry = c.registry := by cases e <;> rfl
    have hsystem : (e.begin c).service.system = c.service.system := by cases e <;> rfl
    have hrunning : (e.begin c).service.running = c.service.running := by cases e <;> rfl
    have htoken : c.nextToken ≤ (e.begin c).nextToken := by
      cases e with
      | get h k => exact Nat.le_succ _
      | _ => exact Nat.le_refl _
    refine ⟨hregistry ▸ h.wellNamed, hregistry ▸ h.declared, fun he => ?_, hregistry ▸ h.storable,
      h.stored, hsystem ▸ h.run, h.named, fun t ht => Nat.lt_of_lt_of_le (h.tokens t ht) htoken,
      hsystem ▸ h.serving, ?_, ?_⟩
    · cases he
      rw [hregistry]
      exact hsound
    · rw [Controller.status, hsystem]
      exact h.unstopped
    · rw [Controller.status, hsystem, hrunning]
      exact h.running
  · by_cases hstart : e = .start
    · subst hstart
      have hbegun : c.service.calls ++ [Call.starting] = [Call.starting] := by
        rw [hcalls]
        rfl
      exact .starting hbegun trivial
    · obtain ⟨request, hbegun, hasks⟩ := hsound.begin hstart h.tokens
      rw [hcalls] at hbegun
      refine .asking hbegun ?_ hasks
      cases e with
      | start => exact absurd rfl hstart
      | get h' k => exact hallowed.1
      | write w => exact hallowed.1

theorem Orderly.finishes {result : Except CacheError Reply}
    (h : Orderly others first names declared written (some errand) c past sent)
    (hunderway : Underway initial past c (some errand) sent)
    (hcalls : c.service.calls = [.returned result]) :
    Orderly others first names declared (written ++ errand.written) none
      { c with service := { c.service with calls := [] } } sent sent := by
  have hdone : ∀ {request : Request}, sent = past ++ [request] → Request.writes sent =
      Request.writes past ++ Request.writes [request] := fun he => by
    rw [he, Request.writes_append]
  have hnext : Request.writes sent = (written ++ errand.written).filterMap TypedWrite.stored? ∧
      ∀ w ∈ errand.written, w.Storable ∧ w.handle.Declared c.registry := by
    rw [List.filterMap_append, ← h.stored]
    cases hunderway with
    | starting => exact ⟨(List.append_nil _).symm, List.forall_mem_nil _⟩
    | answered => exact ⟨hdone rfl, List.forall_mem_nil _⟩
    | written _ hasks =>
      obtain ⟨p, hp, he, -⟩ := hasks
      cases he
      refine ⟨?_, fun w hw => ?_⟩
      · rw [hdone rfl, Errand.written, List.filterMap_cons_some (TypedWrite.stored?_eq_some hp)]
        rfl
      · rw [List.mem_singleton.mp hw]
        exact (h.sound rfl).2.symm
    | asking hc | sending hc | awaiting hc =>
      rw [hcalls] at hc
      cases hc
  refine ⟨h.wellNamed, h.declared, nofun, fun w hw => ?_, hnext.1, h.run, h.named, h.tokens,
    h.serving, h.unstopped, h.running⟩
  rcases List.mem_append.mp hw with hw | hw
  · exact h.storable w hw
  · exact hnext.2 w hw

theorem Orderly.keeper (h : Orderly others first names declared written doing c past sent)
    (hclock : c.service.system.clock.nanos < Instant.limit)
    (hstep : c.service.keeperStep none = some service) :
    service.system.StoreFailed ∨
      Orderly others first names declared written doing { c with service } past sent := by
  obtain ⟨-, system, hsystem, rfl⟩ := Service.keeperStep_eq_some hstep
  have hconstants := System.constants_step hsystem
  have hstarted : system.status.started = c.status.started := congrArg (·.1) hconstants
  have hstopped : system.status.stopRequested = c.status.stopRequested :=
    congrArg (·.2.1) hconstants
  exact (h.serving.step hclock hsystem).imp_right fun hserving => ⟨h.wellNamed, h.declared,
    h.sound, h.storable, h.stored, h.run.step rfl hsystem, h.named, h.tokens, hserving,
    hstopped.trans h.unstopped, fun he => h.running (hstarted ▸ he)⟩

omit [Store S W] in
theorem Underway.congr (h : Underway initial past c doing sent)
    (hcalls : c'.service.calls = c.service.calls) (hrunning : c'.service.running = c.service.running)
    (hstarted : c'.status.started = c.status.started) (htoken : c'.nextToken = c.nextToken) :
    Underway initial past c' doing sent := by
  cases h with
  | idle h => exact .idle (hcalls.trans h)
  | @starting call h hstarts =>
    refine .starting (hcalls.trans h) ?_
    cases call with
    | registering | marking => exact hrunning.trans hstarts
    | starting | spawning | returned _ => exact trivial
    | _ => exact hstarts
  | asking h hs hasks => exact .asking (hcalls.trans h) (hstarted.trans hs) (htoken ▸ hasks)
  | sending h hs hasks => exact .sending (hcalls.trans h) (hstarted.trans hs) (htoken ▸ hasks)
  | awaiting h hs hasks => exact .awaiting (hcalls.trans h) (hstarted.trans hs) (htoken ▸ hasks)
  | answered h hasks => exact .answered (hcalls.trans h) (htoken ▸ hasks)
  | written h hasks => exact .written (hcalls.trans h) (htoken ▸ hasks)

theorem Underway.keeper (h : Underway initial past c doing sent)
    (hstep : c.service.keeperStep none = some service) :
    Underway initial past { c with service } doing sent := by
  obtain ⟨-, system, hsystem, rfl⟩ := Service.keeperStep_eq_some hstep
  exact h.congr rfl rfl (congrArg (·.1) (System.constants_step hsystem)) rfl

theorem Orderly.later {system : System S W}
    (h : Orderly others first names declared written doing c past sent)
    (hrun : ∀ {start}, System.Run ⟨fun _ i => i = none, others⟩ start sent c.service.system →
      System.Run ⟨fun _ i => i = none, others⟩ start sent system)
    (hserving : system.Serving) (hstatus : system.status = c.service.system.status) :
    Orderly others first names declared written doing (c.withSystem system) past sent := by
  refine ⟨h.wellNamed, h.declared, h.sound, h.storable, h.stored, hrun h.run, h.named, h.tokens,
    hserving, ?_, ?_⟩
  · show system.status.stopRequested = false
    rw [hstatus]
    exact h.unstopped
  · show system.status.started = true → _
    rw [hstatus]
    exact h.running

theorem Orderly.declares {r : Registry}
    (h : Orderly others first names declared written doing c past sent) (more : List SomeHandle)
    (hr : c.registry.Extends r) (hmore : ∀ h ∈ more, h.handle.Declared r) :
    Orderly others first names (more ++ declared) written doing { c with registry := r } past
      sent := by
  refine ⟨hr.wellNamed, fun h' hh => ?_, fun he => (h.sound he).extends hr,
    fun w hw => ⟨(h.storable w hw).1, (h.storable w hw).2.extends hr⟩, h.stored, h.run, h.named,
    h.tokens, h.serving, h.unstopped, h.running⟩
  rcases List.mem_append.mp hh with hh | hh
  · exact hmore h' hh
  · exact (h.declared h' hh).extends hr

/-! ### Whole dialogs -/

theorem orderly (hg : Grounds view initial Ready others first)
    (h : Dialog others first declared written doing c)
    (hnames : ∀ h ∈ declared, view.Named h.handle.identity.name)
    (hclock : c.service.system.clock.nanos < Instant.limit) :
    c.service.system.StoreFailed ∨ ∃ past sent,
      Orderly others first view.Named declared written doing c past sent ∧
        Underway initial past c doing sent := by
  induction h with
  | first => exact Or.inr ⟨[], [], hg.orderly, .idle hg.calls⟩
  | @declare _ _ _ _ _ name key codec h' h hdeclare ih =>
    unfold Controller.declare at hdeclare
    split at hdeclare
    · rename_i hok
      cases hdeclare
      refine (ih (fun h hh => hnames h (List.mem_cons_of_mem _ hh)) hclock).imp_right ?_
      rintro ⟨past, sent, ho, hu⟩
      obtain ⟨hdeclared, hextends⟩ := Handle.declared_of_declare ho.wellNamed hok
      refine ⟨past, sent, ho.declares [⟨h'⟩] hextends fun h hh => ?_,
        hu.congr rfl rfl rfl rfl⟩
      rw [List.mem_singleton.mp hh]
      exact hdeclared
    · cases hdeclare
  | refuse name key codec h hdeclare ih =>
    unfold Controller.declare at hdeclare
    split at hdeclare
    · cases hdeclare
    · cases hdeclare
      exact ih hnames hclock
  | begin errand h hallowed ih =>
    have hsystem : ∀ (c : Controller S W) (errand : Errand),
        (errand.begin c).service.system = c.service.system := fun c errand => by cases errand <;> rfl
    rw [hsystem] at hclock ⊢
    refine (ih hnames hclock).imp_right ?_
    rintro ⟨past, sent, ho, hu⟩
    cases hu with
    | idle hcalls =>
      obtain ⟨ho, hu⟩ := ho.begins hcalls hallowed hnames
      exact ⟨_, _, ho, hu⟩
  | call h hstep ih =>
    obtain ⟨hstage, hlog, hsame⟩ := Service.callStep_system hstep
    rw [show (_ : Controller S W).service.system.clock = _ from hsame] at hclock
    refine (ih hnames hclock).imp (fun hfailed => hfailed.congr hstage hlog) ?_
    rintro ⟨past, sent, ho, hu⟩
    obtain ⟨sent', ho', hu'⟩ := ho.acts hg hu hstep
    exact ⟨past, sent', ho', hu'⟩
  | finish h hcalls ih =>
    refine (ih hnames hclock).imp_right ?_
    rintro ⟨past, sent, ho, hu⟩
    exact ⟨sent, sent, ho.finishes hu hcalls, .idle rfl⟩
  | @keeper _ _ _ c service h hstep ih =>
    obtain ⟨-, system, hsystem, he⟩ := Service.keeperStep_eq_some hstep
    have hsame : service.system.clock = c.service.system.clock := by
      rw [he]
      exact congrArg (·.2.2.2) (System.constants_step hsystem)
    rw [hsame] at hclock
    rcases ih hnames hclock with hfailed | ⟨past, sent, ho, hu⟩
    · exact Or.inl (he ▸ hfailed.step hsystem)
    · exact (ho.keeper hclock hstep).imp_right fun ho' => ⟨past, sent, ho', hu.keeper hstep⟩
  | tick nanos h ih =>
    refine (ih hnames (Nat.lt_of_le_of_lt (Nat.le_add_right ..) hclock)).imp
      (fun hfailed => hfailed.congr rfl rfl) ?_
    rintro ⟨past, sent, ho, hu⟩
    have hcalm := ho.serving.calm
    refine ⟨past, sent, ho.later (fun h => h.tick nanos) ?_ rfl, hu.congr rfl rfl rfl rfl⟩
    exact ho.serving.later (hcalm.congr rfl rfl rfl rfl) rfl rfl (Nat.le_add_right ..)
  | change f h hallowed ih =>
    refine (ih hnames hclock).imp (fun hfailed => hfailed.congr rfl rfl) ?_
    rintro ⟨past, sent, ho, hu⟩
    have hcalm := ho.serving.calm
    refine ⟨past, sent, ho.later (fun h => h.change _ hallowed) ?_ rfl, hu.congr rfl rfl rfl rfl⟩
    exact ho.serving.later (hcalm.congr rfl rfl rfl rfl) rfl rfl (Nat.le_refl _)

end

end Dialog

end HistoryKeeper
