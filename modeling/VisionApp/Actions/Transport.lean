import Mathlib.Data.Int.Init
import VisionApp.Lib.Executions
import VisionApp.Lib.OrderedDict
import VisionApp.Lib.ExceptFold
import VisionApp.Lib.Steps

/-!
# The webhook transport

A send looks its destination up, lets the resolver answer for its host and
connects to the first address of an answer that is public throughout. The
event loop may run other sends while the resolver or the connector is awaited;
both answer anything. How a URL is split and an address is read belongs to the
standard library and stays open.
-/

set_option autoImplicit false

namespace VisionApp.Transport
open Interleaving

inductive TransportFailure where
  | destinationSafety (message : String)
  | deliveryRateLimited (destinationRef : String)
  | valueError (message : String)
  | raised (error : String)
  deriving DecidableEq

structure SplitUrl where
  scheme : String
  hostname : Option String
  username : Option String
  password : Option String
  fragment : String
  deriving DecidableEq

/-- `urlsplit` and `ipaddress.ip_address`, of whose answer only `is_global` is read. -/
structure Standard where
  urlsplit : String → SplitUrl
  isGlobal : String → Option Bool

section Destinations

variable (std : Standard)

/-- What the constructor of a destination has checked. -/
structure Destination where
  id : String
  url : String
  https : (std.urlsplit url).scheme = "https"
  hosted : ∃ hostname, (std.urlsplit url).hostname = some hostname ∧ hostname ≠ ""
  anonymous : (std.urlsplit url).username = none ∧ (std.urlsplit url).password = none
  whole : (std.urlsplit url).fragment = ""

instance (url : String) : Decidable (∃ hostname, (std.urlsplit url).hostname = some hostname ∧ hostname ≠ "") :=
  match (std.urlsplit url).hostname with
  | none => .isFalse fun ⟨_, hsome, _⟩ => nomatch hsome
  | some hostname =>
    if hne : hostname = "" then .isFalse fun ⟨_, hsome, hother⟩ => hother (Option.some.inj hsome ▸ hne)
    else .isTrue ⟨hostname, rfl, hne⟩

/-- `Destination.__post_init__`. -/
def Destination.of? (id url : String) : Except TransportFailure (Destination std) :=
  if h : (std.urlsplit url).scheme = "https" ∧
      ∃ hostname, (std.urlsplit url).hostname = some hostname ∧ hostname ≠ "" then
    if hcredentials : (std.urlsplit url).username = none ∧ (std.urlsplit url).password = none then
      if hfragment : (std.urlsplit url).fragment = "" then
        .ok ⟨id, url, h.1, h.2, hcredentials, hfragment⟩
      else .error (.valueError "fragments are forbidden in webhook URLs")
    else .error (.valueError "credentials are forbidden in webhook URLs")
  else .error (.valueError "webhook destination must use HTTPS with a hostname")

structure SafeWebhookTransport where
  destinations : OrderedDict String (Destination std)
  maxPayload : ℤ := 64000
  maxResponse : ℤ := 64000
  maxRequests : ℤ := 100

/-- `SafeWebhookTransport.__init__`, which an unlisted reference stops. -/
def SafeWebhookTransport.of? (destinations : OrderedDict String (Destination std))
    (allowedDestinationRefs : Option (List String)) (maxPayload maxResponse maxRequests : ℤ) :
    Except TransportFailure (SafeWebhookTransport std) :=
  if allowedDestinationRefs.any fun allowed => destinations.keys.any fun ref => !allowed.contains ref then
    .error (.destinationSafety "destination is not production-allowlisted")
  else .ok ⟨destinations, maxPayload, maxResponse, maxRequests⟩

end Destinations

/-! ## The ports -/

structure TransportResponse where
  status : ℤ
  bodySize : ℤ := 0
  redirectUrl : Option String := none
  deriving DecidableEq

/-- What the connector is asked for, and the reference it is asked for. -/
structure Connection where
  destinationRef : String
  url : String
  address : String
  payload : List UInt8
  signature : String
  deriving DecidableEq

structure Resolution where
  hostname : String
  addresses : List String
  deriving DecidableEq

inductive Action where
  | requestCount (destinationRef : String)
  | resolve (hostname : String)
  | setRequestCount (destinationRef : String) (count : ℕ)
  | request (connection : Connection)

def Answer : Action → Type
  | .requestCount _ => ℕ
  | .resolve _ => Except String (List String)
  | .setRequestCount _ _ => Unit
  | .request _ => Except String TransportResponse

/-- What the resolver and the connector answer, or the exception they raise. -/
structure Choice where
  resolver : Except String (List String) := .ok []
  connector : Except String TransportResponse := .ok ⟨200, 0, none⟩

/-- The counters, with what the resolver has answered and the connections asked for. -/
structure Wire where
  requestCounts : OrderedDict String ℕ := .empty
  resolutions : List Resolution := []
  connections : List Connection := []

def Wire.resolved (wire : Wire) (hostname : String) : Except String (List String) → Wire
  | .ok addresses => { wire with resolutions := wire.resolutions++[⟨hostname, addresses⟩] }
  | .error _ => wire

def machine : Machine Wire Action Choice Answer where
  act wire a c := match a with
    | .requestCount ref => (wire.requestCounts.getD ref 0, wire)
    | .resolve hostname => (c.resolver, wire.resolved hostname c.resolver)
    | .setRequestCount ref n => ((), { wire with requestCounts := wire.requestCounts.set ref n })
    | .request connection => (c.connector, { wire with connections := wire.connections++[connection] })

abbrev TransportProg := Prog Action Answer TransportFailure

def requestCount (destinationRef : String) : TransportProg ℕ := .act (.requestCount destinationRef) .ret

def setRequestCount (destinationRef : String) (count : ℕ) : TransportProg Unit :=
  .act (.setRequestCount destinationRef count) .ret

def resolve (hostname : String) : TransportProg (List String) :=
  .act (.resolve hostname) fun answer => Prog.ofExcept (answer.mapError .raised)

def request (connection : Connection) : TransportProg TransportResponse :=
  .act (.request connection) fun answer => Prog.ofExcept (answer.mapError .raised)

def refused {α : Type} (message : String) : TransportProg α := .fail (.destinationSafety message)

/-! ## A send -/

def publicAddress (std : Standard) (value : String) : Except TransportFailure Bool :=
  match std.isGlobal value with
  | some answer => .ok answer
  | none => .error (.destinationSafety "DNS returned an invalid address")

structure Message where
  destinationRef : String
  payload : List UInt8
  signature : String

variable {std : Standard}

/-- The checks on what the connector has answered. -/
def accepted (t : SafeWebhookTransport std) (response : TransportResponse) : TransportProg ℤ :=
  if response.redirectUrl.isSome ∨ (300 ≤ response.status ∧ response.status < 400) then
    refused "webhook redirects are forbidden"
  else if t.maxResponse < response.bodySize then refused "webhook response exceeds configured bound"
  else .ret response.status

/-- What follows once the resolver has answered. -/
def connect (t : SafeWebhookTransport std) (message : Message) (url : String) (count : ℕ) :
    List String → TransportProg ℤ
  | [] => refused "destination DNS returned no addresses"
  | address::rest => do
    let parsed ← Prog.ofExcept ((address::rest).mapM (publicAddress std))
    -- every answer must be safe
    if parsed.contains false then refused "destination DNS includes a non-public address"
    else do
      setRequestCount message.destinationRef (count+1)
      let response ← request ⟨message.destinationRef, url, address, message.payload, message.signature⟩
      accepted t response

/-- The send from the count of the earlier requests on. -/
def sendTo (t : SafeWebhookTransport std) (message : Message) (url : String) (count : ℕ) : TransportProg ℤ :=
  if t.maxRequests ≤ count then .fail (.deliveryRateLimited message.destinationRef)
  else match (std.urlsplit url).hostname with
    | none => refused "destination hostname is missing"
    | some hostname => do
      let addresses ← resolve hostname
      connect t message url count addresses

def send (t : SafeWebhookTransport std) (message : Message) : TransportProg ℤ :=
  match t.destinations.get? message.destinationRef with
  | none => refused "unknown destination reference"
  | some destination =>
    if t.maxPayload < message.payload.length then refused "payload exceeds configured bound"
    else do
      let count ← requestCount message.destinationRef
      sendTo t message destination.url count

/-! ## Every connection is vetted -/

/-- The connection is to the first address of an answer for the host of its
destination, and every address of the answer is public. -/
def Vetted (t : SafeWebhookTransport std) (resolutions : List Resolution) (connection : Connection) : Prop :=
  ∃ destination hostname rest, t.destinations.get? connection.destinationRef = some destination ∧
    connection.url = destination.url ∧ (connection.payload.length : ℤ) ≤ t.maxPayload ∧
    (std.urlsplit connection.url).hostname = some hostname ∧
    ⟨hostname, connection.address::rest⟩ ∈ resolutions ∧
    ∀ address ∈ connection.address::rest, std.isGlobal address = some true

theorem vetted_later {t : SafeWebhookTransport std} {early late : List Resolution} {connection : Connection}
    (h : Vetted t early connection) (hsub : early <+: late) : Vetted t late connection := by
  obtain ⟨destination, hostname, rest, hd, hurl, hpayload, hhost, hmem, hpublic⟩ := h
  exact ⟨destination, hostname, rest, hd, hurl, hpayload, hhost, hsub.subset hmem, hpublic⟩

/-- What the resolver has answered stays known. -/
def Rely (s s' : Wire) : Prop := s.resolutions <+: s'.resolutions

/-- The step asks for no connection, or for one of the message that is vetted by then. -/
def Guarantee (t : SafeWebhookTransport std) (message : Message) (s : Wire) (_ : Action) (s' : Wire) : Prop :=
  Rely s s' ∧ (s'.connections = s.connections ∨ ∃ connection, s'.connections = s.connections++[connection] ∧
    Vetted t s.resolutions connection ∧ connection.destinationRef = message.destinationRef ∧
    connection.payload = message.payload ∧ connection.signature = message.signature)

theorem rely_refl (s : Wire) : Rely s s := List.prefix_refl _

theorem rely_trans (a b c : Wire) (h : Rely a b) (h' : Rely b c) : Rely a c := List.IsPrefix.trans h h'

section Sends

variable {t : SafeWebhookTransport std} {message : Message} {α β : Type}

/-- The program meets the guarantee of its message in every state. -/
def Guarded (t : SafeWebhookTransport std) (message : Message) (p : TransportProg α) (s : Wire) : Prop :=
  Obeys machine Rely (Guarantee t message) (fun _ _ => True) p s

theorem guarded_fail (e : TransportFailure) (s : Wire) : Guarded t message (.fail e : TransportProg α) s :=
  fun _ _ => trivial

theorem guarded_ret (a : α) (s : Wire) : Guarded t message (.ret a) s := fun _ _ => trivial

/-- A step that asks for no connection. -/
theorem guarded_quiet {a : Action} {k : Answer a → TransportProg α} {s : Wire}
    (hrely : ∀ x c, Rely x (machine.act x a c).2)
    (hquiet : ∀ x c, (machine.act x a c).2.connections = x.connections)
    (hk : ∀ x c, Rely s x → Guarded t message (k (machine.act x a c).1) (machine.act x a c).2) :
    Guarded t message (.act a k) s :=
  fun x hx c => ⟨⟨hrely x c, .inl (hquiet x c)⟩, hk x c hx⟩

theorem guarded_ofExcept {x : Except TransportFailure α} {f : α → TransportProg β} {s : Wire}
    (h : ∀ a, x = .ok a → Guarded t message (f a) s) : Guarded t message (Prog.ofExcept x >>= f) s := by
  cases x with
  | ok a => exact h a rfl
  | error e => exact guarded_fail e s

theorem guarded_accepted (response : TransportResponse) (s : Wire) :
    Guarded t message (accepted t response) s := by
  unfold accepted
  split
  · exact guarded_fail _ s
  · split
    · exact guarded_fail _ s
    · exact guarded_ret _ s

theorem contains_false {parsed : List Bool} (h : parsed.contains false = false) : ∀ b ∈ parsed, b = true := by
  intro b hb
  cases b with
  | true => rfl
  | false =>
    rw [List.contains_iff_mem.mpr hb] at h
    cases h

/-- Addresses that all parsed as public ones. -/
theorem public_answers {addresses : List String} {parsed : List Bool}
    (h : addresses.mapM (publicAddress std) = .ok parsed) (hpublic : parsed.contains false = false) :
    ∀ address ∈ addresses, std.isGlobal address = some true := by
  intro address haddress
  obtain ⟨answer, hanswer, hread⟩ := ExceptFold.mapM_left h haddress
  unfold publicAddress at hread
  split at hread
  · rename_i global hglobal
    rw [hglobal, Except.ok.inj hread, contains_false hpublic answer hanswer]
  · cases hread

theorem guarded_connect {url hostname : String} {addresses : List String} {n : ℕ}
    {destination : Destination std} (hd : t.destinations.get? message.destinationRef = some destination)
    (hurl : url = destination.url) (hpayload : (message.payload.length : ℤ) ≤ t.maxPayload)
    (hhost : (std.urlsplit url).hostname = some hostname) {s : Wire} (hs : ⟨hostname, addresses⟩ ∈ s.resolutions) :
    Guarded t message (connect t message url n addresses) s := by
  cases addresses with
  | nil => exact guarded_fail _ s
  | cons address rest =>
    refine guarded_ofExcept fun parsed hparsed => ?_
    split
    · exact guarded_fail _ s
    · rename_i hpublic
      have hvetted : Vetted t s.resolutions
          ⟨message.destinationRef, url, address, message.payload, message.signature⟩ :=
        ⟨destination, hostname, rest, hd, hurl, hpayload, hhost, hs, public_answers hparsed (by simpa using hpublic)⟩
      refine guarded_quiet (fun _ _ => rely_refl _) (fun _ _ => rfl) fun x c hx => ?_
      -- the connection itself, among the sends that ran since the answer
      refine fun y hy d => ⟨⟨rely_refl _, .inr ⟨_, rfl, vetted_later hvetted (hx.trans hy), rfl, rfl, rfl⟩⟩, ?_⟩
      exact guarded_ofExcept fun response _ => guarded_accepted response _

theorem resolved_rely (s : Wire) (hostname : String) (answer : Except String (List String)) :
    Rely s (s.resolved hostname answer) := by
  cases answer with
  | ok addresses => exact List.prefix_append _ _
  | error e => exact rely_refl s

theorem resolved_connections (s : Wire) (hostname : String) (answer : Except String (List String)) :
    (s.resolved hostname answer).connections = s.connections := by
  cases answer <;> rfl

theorem guarded_sendTo {destination : Destination std} (n : ℕ)
    (hd : t.destinations.get? message.destinationRef = some destination)
    (hpayload : (message.payload.length : ℤ) ≤ t.maxPayload) (s : Wire) :
    Guarded t message (sendTo t message destination.url n) s := by
  unfold sendTo
  split
  · exact guarded_fail _ s
  · split
    · exact guarded_fail _ s
    · rename_i hostname hhost
      refine guarded_quiet (fun x c => resolved_rely x hostname c.resolver)
        (fun x c => resolved_connections x hostname c.resolver) fun x c _ =>
          guarded_ofExcept fun addresses hanswer => ?_
      have hresolver : c.resolver = .ok addresses := by
        change c.resolver.mapError TransportFailure.raised = .ok addresses at hanswer
        generalize c.resolver = answer at hanswer
        cases answer with
        | ok found => rw [Except.ok.inj hanswer]
        | error e => cases hanswer
      refine guarded_connect hd rfl hpayload hhost ?_
      show _ ∈ (x.resolved hostname c.resolver).resolutions
      rw [hresolver]
      exact List.mem_append_right _ (List.mem_singleton_self _)

theorem guarded_send (s : Wire) : Guarded t message (send t message) s := by
  unfold send
  split
  · exact guarded_fail _ s
  · rename_i destination hd
    split
    · exact guarded_fail _ s
    · rename_i hpayload
      exact guarded_quiet (fun _ _ => rely_refl _) (fun _ _ => rfl)
        fun x c _ => guarded_sendTo _ hd (Int.not_lt.mp hpayload) _

end Sends

/-- A vetted connection, over HTTPS, of one of the sends. -/
def Belongs {ι : Type} (t : SafeWebhookTransport std) (messages : ι → Message) (s : Wire) (connection : Connection) :
    Prop :=
  Vetted t s.resolutions connection ∧ (std.urlsplit connection.url).scheme = "https" ∧
    ∃ i, connection.destinationRef = (messages i).destinationRef ∧ connection.payload = (messages i).payload ∧
      connection.signature = (messages i).signature

section Belongs

variable {ι : Type} {t : SafeWebhookTransport std} {messages : ι → Message} {s s' : Wire} {connection : Connection}

theorem Belongs.later (h : Belongs t messages s connection) (hgrows : Rely s s') : Belongs t messages s' connection :=
  ⟨vetted_later h.1 hgrows, h.2⟩

theorem belongs {i : ι} (h : Vetted t s.resolutions connection)
    (hi : connection.destinationRef = (messages i).destinationRef ∧ connection.payload = (messages i).payload ∧
      connection.signature = (messages i).signature) : Belongs t messages s connection := by
  obtain ⟨destination, -, -, -, hurl, -⟩ := id h
  exact ⟨h, by rw [hurl]; exact destination.https, i, hi⟩

end Belongs

/-- Over every interleaving of any number of sends, whatever the resolver and
the connector answer, each connection that was asked for belongs to one of the
sends and was vetted: it goes to the first address of an answer for the host of
its HTTPS destination, all of whose addresses are public, with a payload within
the bound. -/
theorem connections_vetted {ι : Type} [DecidableEq ι] (t : SafeWebhookTransport std) (messages : ι → Message)
    (ts : List (ι × Choice)) :
    let final := (run machine ts ⟨({} : Wire), fun i => send t (messages i)⟩).shared
    ∀ connection ∈ final.connections, Vetted t final.resolutions connection ∧
      (std.urlsplit connection.url).scheme = "https" ∧ ∃ i, connection.destinationRef = (messages i).destinationRef ∧
        connection.payload = (messages i).payload ∧ connection.signature = (messages i).signature := by
  intro final
  have hgrow : ∀ i s a s', Guarantee t (messages i) s a s' → Rely s s' := fun _ _ _ _ h => h.1
  have hsends : ∀ i, Obeys machine Rely (Guarantee t (messages i)) (fun _ _ => True) (send t (messages i)) {} :=
    fun _ => guarded_send _
  have hevents := (events_obey rely_trans hgrow rely_refl ts ⟨({} : Wire), fun i => send t (messages i)⟩ hsends).1
  refine run_history (m := machine) (H := fun _ s => ∀ connection ∈ s.connections, Belongs t messages s connection)
    (G := fun e => Guarantee t (messages e.thread) e.before e.action e.after) ?_ ts _ (fun e he => (hevents e he).1) ?_
  · rintro _ e hbefore ⟨hgrows, hsame | ⟨made, hmade, hvetted, hmessage⟩⟩ connection hconnection
    · rw [hsame] at hconnection
      exact (hbefore connection hconnection).later hgrows
    · rw [hmade] at hconnection
      rcases List.mem_append.mp hconnection with hold | hnew
      · exact (hbefore connection hold).later hgrows
      · obtain rfl := List.mem_singleton.mp hnew
        exact (belongs hvetted hmessage).later hgrows
  · intro connection hconnection
    cases hconnection

/-! ## One send after another -/

section Sequences

variable {t : SafeWebhookTransport std} {message : Message} {c : Action → Choice}

/-- What one send that runs alone does: it leaves the counters and the
connections, or counts its connection among those that it was allowed. -/
def Delivers (t : SafeWebhookTransport std) (message : Message) (n : ℕ) (wire after : Wire) : Prop :=
  (after.connections = wire.connections ∧ after.requestCounts = wire.requestCounts) ∨
    ((n : ℤ) < t.maxRequests ∧ ∃ connection, connection.destinationRef = message.destinationRef ∧
      after.connections = wire.connections++[connection] ∧
      after.requestCounts = wire.requestCounts.set message.destinationRef (n+1))

theorem accepted_alone (response : TransportResponse) (wire : Wire) :
    (execute machine c (accepted t response) wire).2.2 = wire := by
  unfold accepted
  split
  · rfl
  · split <;> rfl

theorem connect_alone (message : Message) (c : Action → Choice) (url : String) {n : ℕ} (hn : (n : ℤ) < t.maxRequests)
    (addresses : List String) (wire : Wire) :
    Delivers t message n wire (execute machine c (connect t message url n addresses) wire).2.2 := by
  cases addresses with
  | nil => exact .inl ⟨rfl, rfl⟩
  | cons address rest =>
    refine execute_bind_ends ?_ fun parsed s₁ hparsed => ?_
    · intro e s₁ herr
      rw [execute_ofExcept] at herr
      obtain rfl := (Prod.mk.inj herr).2
      exact .inl ⟨rfl, rfl⟩
    · rw [execute_ofExcept] at hparsed
      obtain rfl := (Prod.mk.inj hparsed).2
      split
      · exact .inl ⟨rfl, rfl⟩
      · -- the count is set before the connector is asked
        have hcounted : ∀ answer : Except String TransportResponse, Delivers t message n wire
            (execute machine c (Prog.ofExcept (answer.mapError .raised) >>= accepted t)
              { wire with
                requestCounts := wire.requestCounts.set message.destinationRef (n+1)
                connections := wire.connections++
                  [⟨message.destinationRef, url, address, message.payload, message.signature⟩] }).2.2 := by
          intro answer
          refine execute_bind_ends ?_ fun response s₁ hresponse => ?_
          · intro e s₁ herr
            rw [execute_ofExcept] at herr
            obtain rfl := (Prod.mk.inj herr).2
            exact .inr ⟨hn, _, rfl, rfl, rfl⟩
          · rw [execute_ofExcept] at hresponse
            obtain rfl := (Prod.mk.inj hresponse).2
            rw [accepted_alone]
            exact .inr ⟨hn, _, rfl, rfl, rfl⟩
        exact hcounted _

theorem resolve_alone {hostname : String} {wire after : Wire} {r : Except TransportFailure (List String)}
    (h : (execute machine c (resolve hostname) wire).2 = (r, after)) :
    after.connections = wire.connections ∧ after.requestCounts = wire.requestCounts := by
  have hafter : after = wire.resolved hostname (c (.resolve hostname)).resolver := by
    have hstate : (execute machine c (resolve hostname) wire).2.2 =
        wire.resolved hostname (c (.resolve hostname)).resolver :=
      congrArg Prod.snd (execute_ofExcept c ((c (.resolve hostname)).resolver.mapError TransportFailure.raised) _)
    rw [← hstate, h]
  rw [hafter]
  cases (c (.resolve hostname)).resolver <;> exact ⟨rfl, rfl⟩

theorem sendTo_alone (url : String) (n : ℕ) (wire : Wire) :
    Delivers t message n wire (execute machine c (sendTo t message url n) wire).2.2 := by
  unfold sendTo
  split
  · exact .inl ⟨rfl, rfl⟩
  · rename_i hn
    split
    · exact .inl ⟨rfl, rfl⟩
    · refine execute_bind_ends (fun e s₁ herr => .inl (resolve_alone herr)) fun addresses s₁ hresolved => ?_
      obtain ⟨hconnections, hcounts⟩ := resolve_alone hresolved
      have hrest := connect_alone message c url (Int.not_le.mp hn) addresses s₁
      unfold Delivers at hrest ⊢
      rwa [hconnections, hcounts] at hrest

theorem send_alone (wire : Wire) :
    Delivers t message (wire.requestCounts.getD message.destinationRef 0) wire
      (execute machine c (send t message) wire).2.2 := by
  unfold send
  split
  · exact .inl ⟨rfl, rfl⟩
  · rename_i destination _
    split
    · exact .inl ⟨rfl, rfl⟩
    · exact sendTo_alone destination.url _ wire

/-- The counter of a reference is the number of its connections, within the bound. -/
def Counted (t : SafeWebhookTransport std) (wire : Wire) : Prop :=
  ∀ ref, wire.requestCounts.getD ref 0 = wire.connections.countP (fun x => x.destinationRef = ref) ∧
    (wire.requestCounts.getD ref 0 : ℤ) ≤ max t.maxRequests 0

theorem delivers_counted {wire after : Wire} (h : Counted t wire)
    (hd : Delivers t message (wire.requestCounts.getD message.destinationRef 0) wire after) : Counted t after := by
  intro ref
  obtain ⟨hcount, hbound⟩ := h ref
  rcases hd with ⟨hconnections, hcounts⟩ | ⟨hlt, connection, hown, hconnections, hcounts⟩
  · rw [hconnections, hcounts]
    exact ⟨hcount, hbound⟩
  · rw [hconnections, hcounts, List.countP_append, List.countP_singleton, hown]
    by_cases hr : message.destinationRef = ref
    · subst hr
      rw [OrderedDict.getD_set_self, ← hcount]
      refine ⟨by simp, ?_⟩
      push_cast
      omega
    · rw [OrderedDict.getD_set_ne _ (Ne.symm hr), ← hcount]
      exact ⟨by simp [hr], hbound⟩

/-- A send with what it meets. -/
structure Sent where
  message : Message
  answers : Action → Choice

def deliver (t : SafeWebhookTransport std) (wire : Wire) (sent : Sent) : Wire :=
  (execute machine sent.answers (send t sent.message) wire).2.2

/-- Sends that do not overlap never connect to a destination more often than
its bound allows, and the counters are the numbers of connections. -/
theorem sequential_sends_bounded (t : SafeWebhookTransport std) (sends : List Sent) (ref : String) :
    let final := sends.foldl (deliver t) {}
    final.requestCounts.getD ref 0 = final.connections.countP (fun x => x.destinationRef = ref) ∧
      (final.connections.countP (fun x => x.destinationRef = ref) : ℤ) ≤ max t.maxRequests 0 := by
  have hstart : Counted t {} := fun _ => ⟨rfl, Int.le_max_right _ _⟩
  have hfinal : Counted t (sends.foldl (deliver t) {}) :=
    Steps.invariant (Counted t) (fun _ _ h => delivers_counted h (send_alone _)) sends hstart
  obtain ⟨hcount, hbound⟩ := hfinal ref
  exact ⟨hcount, hcount ▸ hbound⟩

end Sequences

end VisionApp.Transport
