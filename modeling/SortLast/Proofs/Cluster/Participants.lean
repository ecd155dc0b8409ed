import SortLast.Proofs.Discipline
import SortLast.Proofs.Mirror
import SortLast.Proofs.Participant.Answers
import SortLast.Cluster.System

/-!
# Connected participants

A cluster whose participants each serve one session. What the coordinator has put on a connection is a
greeting, whole commands and, after a failure, the beginning of one more; so the commands that a
participant has received can be read off the bytes that it has accepted.

* `Participants`: renderers and connections of any kind, one for each participant.
* `Participants.images`, `Participants.answerTo?`: what a participant answers.
* `Proxy.Carries`: what the stream behind a sending end holds; every operation keeps it in that form.
* `System.received`: the commands that a participant has received.
* `Participants.Connected`: a cluster that was set up with these participants;
  `Connection.opened_of_setup` says what every connection of it holds.
-/

namespace SortLast

/-! ### Participants -/

/-- Participants that serve a session each. -/
structure Participants where
  State : Nat → Type
  renderer : (p : Nat) → Renderer (State p)
  initial : (p : Nat) → State p
  sink : Nat → Sink
  unused : ∀ p, (sink p).accepted = []

namespace Participants

variable (ps : Participants) (p : Nat)

/-- A participant as the other end of a connection. -/
def peer : Peer := { Peer.ofRenderer (ps.renderer p) (ps.initial p) with sink := ps.sink p }

/-- The images that a participant answers commands with, in order. -/
def images (cs : List Command) : List Image :=
  Session.images (ps.renderer p) (Session.greeted (ps.initial p)) cs

/-- The image that a participant answers a camera with, which it receives after other commands. -/
def answerTo? (cs : List Command) (view : View) : Option Image :=
  (Session.after? (ps.renderer p) (Session.greeted (ps.initial p)) cs).bind fun s =>
    Session.image? (ps.renderer p) s (.ofView view)

theorem images_concat_view (cs : List Command) (view : View) :
    ps.images p (cs ++ [.ofView view]) = ps.images p cs ++ (ps.answerTo? p cs view).toList :=
  Session.images_concat _ _ _ _

/-- The behaviour of the participants. -/
def behaviour : System.Behaviour := System.sessions ps.peer

end Participants

/-! ### Streams of commands -/

/-- The commands in the bytes that a participant has accepted. -/
def receivedCommands (accepted : List UInt8) : List Command :=
  match Reading.hello (.ofBytes accepted) with
  | (.ok _, source) => source.commands.1
  | (.error _, _) => []

/-- The commands that a participant has received. -/
def System.received (s : System) (p : Nat) : List Command := receivedCommands (s.accepted p)

namespace Proxy

/-- The stream behind a sending end holds a greeting, the commands `cs` and `w`, which is no whole
command. As long as the connection is open, `w` is empty. -/
structure Carries (p : Proxy) (cs : List Command) (w : List UInt8) : Prop where
  accepted : p.sink.accepted = Session.greeting ++ cs.flatMap Command.bytes ++ w
  framed : ∀ c ∈ cs, c.Framed
  unfinished : Unfinished w
  whole : p.isConnected → w = []

variable {p : Proxy} {cs : List Command} {w : List UInt8}

theorem Carries.received (h : p.Carries cs w) : receivedCommands p.sink.accepted = cs := by
  have hb : (Source.ofBytes p.sink.accepted).bytes =
      Session.greeting ++ (cs.flatMap Command.bytes ++ w) := by
    rw [Source.bytes_ofBytes, h.accepted, List.append_assoc]
  obtain ⟨t, ht, htb, -⟩ := Reading.hello_run hb
  rw [receivedCommands, ht]
  simp only [Source.commands_eq h.framed h.unfinished htb]

theorem Carries.close (h : p.Carries cs w) : p.close.Carries cs w where
  accepted := h.accepted
  framed := h.framed
  unfinished := h.unfinished
  whole hc := by cases hc

/-- A command more on the stream, as far as the sink took it. -/
theorem Carries.putCommand_error (h : p.Carries cs []) {c : Command} {e : NetError} {sink : Sink}
    (hp : p.sink.putCommand c = (.error e, sink)) :
    (∃ v, ({ p with sink } : Proxy).close.Carries cs v) ∨
      ({ p with sink } : Proxy).close.Carries (cs ++ [c]) [] := by
  obtain ⟨v, hv, -, ⟨rfl, hf⟩ | hun⟩ := Sink.putCommand_error hp
  · refine .inr ⟨?_, ?_, Unfinished.nil, fun hc => by cases hc⟩
    · show sink.accepted = _
      rw [hv, h.accepted]
      simp
    · exact List.forall_mem_append.2 ⟨h.framed, List.forall_mem_singleton.2 hf⟩
  · refine .inl ⟨v, ?_, h.framed, hun, fun hc => by cases hc⟩
    show sink.accepted = _
    rw [hv, h.accepted, List.append_nil]

theorem Carries.putCommand_ok (h : p.Carries cs []) {c : Command} {sink : Sink}
    (hp : p.sink.putCommand c = (.ok (), sink)) (state : RenderState) :
    ({ p with sink, state } : Proxy).Carries (cs ++ [c]) [] := by
  obtain ⟨hf, ha⟩ := Sink.putCommand_ok hp
  refine ⟨?_, ?_, Unfinished.nil, fun _ => rfl⟩
  · show sink.accepted = _
    rw [ha, h.accepted]
    simp
  · exact List.forall_mem_append.2 ⟨h.framed, List.forall_mem_singleton.2 hf⟩

/-- Sending adds the command to the stream, or leaves the commands on it as they are. Over a closed
connection nothing is sent. -/
theorem Carries.send (h : p.Carries cs w) (c : Command) :
    (∃ v, (p.send c).2.Carries cs v) ∨ p.isConnected ∧ (p.send c).2.Carries (cs ++ [c]) [] := by
  by_cases hc : p.isConnected
  · obtain rfl := h.whole hc
    rw [send_of_open hc]
    split
    · rename_i sink hp
      exact .inr ⟨hc, h.putCommand_ok hp _⟩
    · rename_i e sink hp
      exact (h.putCommand_error hp).imp_right fun hv => ⟨hc, hv⟩
  · rw [send_of_closed (Bool.eq_false_of_not_eq_true hc)]
    exact .inl ⟨w, h⟩

theorem Carries.exit (h : p.Carries cs w) :
    (∃ v, p.exit.2.Carries cs v) ∨ p.isConnected ∧ p.exit.2.Carries (cs ++ [.exit]) [] := by
  by_cases hc : p.isConnected
  · obtain rfl := h.whole hc
    rw [exit_of_open hc]
    rcases hp : p.sink.putCommand .exit with ⟨e | u, sink⟩
    · exact (h.putCommand_error hp).imp_right fun hv => ⟨hc, hv⟩
    · exact .inr ⟨hc, (h.putCommand_ok hp p.state).close⟩
  · rw [exit_of_closed (Bool.eq_false_of_not_eq_true hc)]
    exact .inl ⟨w, h.close⟩

theorem Carries.sendAll (h : p.Carries cs []) {q : Proxy} {ds : List Command}
    (hs : p.sendAll ds = (.ok (), q)) : q.Carries (cs ++ ds) [] := by
  obtain ⟨hd, ha, -⟩ := sendAll_ok hs
  refine ⟨?_, ?_, Unfinished.nil, fun _ => rfl⟩
  · rw [ha, h.accepted, List.flatMap_append, List.append_nil, List.append_nil, List.append_assoc]
  · exact List.forall_mem_append.2 ⟨h.framed, hd⟩

end Proxy

/-! ### Setup -/

/-- A connection to participant `p`, as it is when the cluster begins to work: no camera was sent, and
nothing but the greeting has come back. -/
structure Connection.Opened (p : Nat) (c : Connection) : Prop where
  carries : ∃ cs, c.proxy.Carries cs [] ∧ Command.matrixCount cs = 0
  greeting : c.greeting.bytes = Session.greeting
  participant : c.inbox.receiver.participant = UInt64.ofNat p
  source : c.inbox.receiver.source.bytes = []

namespace Connection

variable {ps : Participants}

theorem opened_of_handshake {p : Nat} {proxy : Proxy} {c : Connection}
    (h : handshake p (ps.peer p) = (proxy, .ok c)) : c.Opened p := by
  unfold handshake at h
  simp only at h
  split at h
  · cases h
  · rename_i u hput
    obtain ⟨-, ha⟩ := Sink.put_ok (Prod.ext hput rfl)
    have haccepted : ((ps.peer p).sink.put (.hello protocolVersion)).2.accepted = Session.greeting :=
      ha.trans (by rw [show (ps.peer p).sink.accepted = [] from ps.unused p]; rfl)
    have hempty : Session.greeting = Session.greeting ++ ([] : List Command).flatMap Command.bytes ++ [] := by
      simp
    have hanswer : ((ps.peer p).respond Session.greeting).bytes = Session.greeting :=
      (Session.respond_bytes (ps.renderer p) (ps.initial p) (by simp) Unfinished.nil hempty).trans
        (List.append_nil _)
    rw [haccepted] at h
    have hsource : (greetingSource ((ps.peer p).respond Session.greeting)).bytes =
        Session.greeting ++ [] := by
      rw [List.append_nil, greetingSource, Source.bytes, List.flatten_singleton, hanswer]
    -- the greeting is all that has come back, so nothing is left to read
    obtain ⟨t, ht, htb, -⟩ := Reading.hello_run hsource
    rw [ht] at h
    simp only [ne_eq, not_true_eq_false, if_false] at h
    cases h
    refine ⟨⟨[], ⟨?_, by simp, Unfinished.nil, fun _ => rfl⟩, rfl⟩, hanswer, rfl, htb⟩
    rw [haccepted]
    simp

theorem opened_of_open? {net : Network} (hnet : ∀ p a peer, net.dial p a = .ok peer → peer = ps.peer p)
    {p : Nat} {address : ParticipantAddress} {proxy : Option Proxy} {c : Connection}
    (h : open? net p address = (proxy, .ok c)) : c.Opened p := by
  unfold open? at h
  split at h
  · cases h
  · split at h
    · cases h
    · rename_i peer hpeer
      obtain rfl := hnet _ _ _ hpeer
      simp only [Prod.mk.injEq] at h
      exact opened_of_handshake (Prod.ext rfl h.2)

/-- The commands of a setup are no cameras. -/
theorem matrixCount_plan (plan : Plan) (bricks : List (List Brick)) :
    Command.matrixCount (plan.commands bricks) = 0 := by
  rw [Command.matrixCount, List.countP_eq_zero]
  intro c hc
  simp only [Plan.commands, List.mem_append, List.mem_cons, List.not_mem_nil, or_false,
    List.mem_map] at hc
  rcases hc with (rfl | rfl) | ⟨b, -, rfl⟩ <;> exact Bool.false_ne_true

theorem Opened.sendAll {p : Nat} {c : Connection} (h : c.Opened p) {plan : Plan}
    {bricks : List (List Brick)} {proxy : Proxy}
    (hs : c.proxy.sendAll (plan.commands bricks) = (.ok (), proxy)) :
    ({ c with proxy } : Connection).Opened p := by
  obtain ⟨cs, hc, hcount⟩ := h.carries
  refine ⟨⟨_, hc.sendAll hs, ?_⟩, h.greeting, h.participant, h.source⟩
  rw [Command.matrixCount_append, hcount, matrixCount_plan]

/-- Connections to the participants from number `first` on. -/
def AllOpened (first : Nat) (cs : List Connection) : Prop :=
  ∀ (k : Nat) (c : Connection), cs[k]? = some c → c.Opened (first + k)

theorem AllOpened.append {first : Nat} {as bs : List Connection} (ha : AllOpened first as)
    (hb : AllOpened (first + as.length) bs) : AllOpened first (as ++ bs) := by
  intro k c hk
  rw [List.getElem?_append] at hk
  split at hk
  · exact ha k c hk
  · rename_i hlt
    have h := hb _ c hk
    rwa [show first + as.length + (k - as.length) = first + k by omega] at h

theorem allOpened_singleton {first : Nat} {c : Connection} (h : c.Opened first) :
    AllOpened first [c] := by
  intro k d hk
  cases k with
  | zero =>
    cases hk
    exact h
  | succ k => cases hk

theorem allOpened_cons {first : Nat} {c : Connection} {cs : List Connection}
    (h : AllOpened first (c :: cs)) : c.Opened first ∧ AllOpened (first + 1) cs := by
  refine ⟨h 0 c rfl, fun k d hk => ?_⟩
  have hd := h (k + 1) d hk
  rwa [show first + (k + 1) = first + 1 + k by omega] at hd

/-- Starting the workers changes nothing, unless everybody was told and one of them does not start. -/
theorem launch_cases (s : Setup) (net : Network) :
    (s.launch net = s ∧
      ∀ plan connections, s.outcome = .ok (plan, connections) →
        net.startWorkers connections.length = .ok ()) ∨
    ∃ plan connections e, s.outcome = .ok (plan, connections) ∧
      net.startWorkers connections.length = .error e ∧
      s.launch net = Setup.failed s.contacted s.opened (.io e) := by
  unfold Setup.launch
  rcases ho : s.outcome with e | ⟨plan, connections⟩
  · refine .inl ⟨rfl, fun plan connections h => ?_⟩
    cases h
  · dsimp only
    rcases hstart : net.startWorkers connections.length with e | u
    · exact .inr ⟨plan, connections, e, rfl, hstart, rfl⟩
    · refine .inl ⟨rfl, fun plan' connections' h => ?_⟩
      cases h
      exact hstart

theorem ok_of_launch {s : Setup} {net : Network} {found : Plan × List Connection}
    (h : (s.launch net).outcome = .ok found) : s.outcome = .ok found := by
  rcases launch_cases s net with ⟨hsame, -⟩ | ⟨plan, connections, e, -, -, hfailed⟩
  · rwa [hsame] at h
  · rw [hfailed] at h
    cases h

/-- Whoever is left without a list of bricks is told nothing. -/
theorem distribute_stop (plan : Plan) (next : Nat) (told rest : List Connection)
    {lists : List (List (List Brick))} (h : rest = [] ∨ lists = []) :
    (Setup.distribute plan next told rest lists).outcome = .ok (plan, told ++ rest) := by
  rcases h with rfl | rfl
  · rfl
  · cases rest <;> rfl

theorem distribute_cons (plan : Plan) (next : Nat) (c : Connection) (told rest : List Connection)
    (bricks : List (List Brick)) (lists : List (List (List Brick))) :
    Setup.distribute plan next told (c :: rest) (bricks :: lists) =
      match c.proxy.sendAll (plan.commands bricks) with
      | (.ok (), proxy) =>
        Setup.distribute plan (next + 1) (told ++ [{ c with proxy }]) rest lists
      | (.error e, proxy) =>
        Setup.failed (told.length + 1 + rest.length)
          (told.map Connection.proxy ++ proxy :: rest.map Connection.proxy) (.socket next e) := by
  rfl

theorem allOpened_of_distribute {plan plan' : Plan} {told rest connections : List Connection}
    {lists : List (List (List Brick))} (ht : AllOpened 0 told) (hr : AllOpened told.length rest)
    (h : (Setup.distribute plan told.length told rest lists).outcome = .ok (plan', connections)) :
    AllOpened 0 connections := by
  induction rest generalizing told lists with
  | nil =>
    rw [distribute_stop _ _ _ _ (.inl rfl)] at h
    cases h
    exact ht.append (by rwa [Nat.zero_add])
  | cons c rest ih =>
    obtain ⟨hc, hrest⟩ := allOpened_cons hr
    cases lists with
    | nil =>
      rw [distribute_stop _ _ _ _ (.inr rfl)] at h
      cases h
      exact ht.append (by rwa [Nat.zero_add])
    | cons bricks lists =>
      rw [distribute_cons] at h
      split at h
      · rename_i proxy hs
        have hlen : (told ++ [{ c with proxy }]).length = told.length + 1 := List.length_append
        have htold : AllOpened 0 (told ++ [{ c with proxy }]) :=
          ht.append (by rw [Nat.zero_add]; exact allOpened_singleton (hc.sendAll hs))
        exact ih htold (by rwa [hlen]) (by rwa [hlen])
      · cases h

theorem connect_nil (net : Network) (plan : Plan) (next : Nat) (opened : List Connection) :
    Setup.connect net plan next opened [] =
      (Setup.distribute plan 0 [] opened plan.bricks).launch net := by
  rfl

theorem connect_cons (net : Network) (plan : Plan) (next : Nat) (opened : List Connection)
    (address : ParticipantAddress) (rest : List ParticipantAddress) :
    Setup.connect net plan next opened (address :: rest) =
      match Connection.open? net next address with
      | (_, .ok c) => Setup.connect net plan (next + 1) (opened ++ [c]) rest
      | (proxy, .error e) =>
        Setup.failed (next + 1) (opened.map Connection.proxy ++ proxy.toList) (.socket next e) := by
  rfl

theorem allOpened_of_connect {net : Network}
    (hnet : ∀ p a peer, net.dial p a = .ok peer → peer = ps.peer p) {plan plan' : Plan}
    {opened connections : List Connection} {addresses : List ParticipantAddress}
    (ho : AllOpened 0 opened)
    (h : (Setup.connect net plan opened.length opened addresses).outcome = .ok (plan', connections)) :
    AllOpened 0 connections := by
  induction addresses generalizing opened with
  | nil =>
    have hnil : AllOpened 0 [] := fun k c hk => by cases hk
    exact allOpened_of_distribute hnil ho (ok_of_launch h)
  | cons address rest ih =>
    rw [connect_cons] at h
    split at h
    · rename_i c hc
      have hlen : (opened ++ [c]).length = opened.length + 1 := List.length_append
      have hopened : AllOpened 0 (opened ++ [c]) :=
        ho.append (by rw [Nat.zero_add]; exact allOpened_singleton (opened_of_open? hnet hc))
      exact ih hopened (by rwa [hlen])
    · cases h

/-- Every connection of a cluster that was set up is open. -/
theorem opened_of_setup {net : Network}
    (hnet : ∀ p a peer, net.dial p a = .ok peer → peer = ps.peer p) {config : ClusterConfig}
    {preview : Preview} {plan : Plan} {connections : List Connection}
    (h : (Setup.run net config preview).outcome = .ok (plan, connections)) :
    ∀ (p : Nat) (c : Connection), connections[p]? = some c → c.Opened p := by
  unfold Setup.run at h
  split at h
  · cases h
  · have hnil : AllOpened 0 [] := fun k c hk => by cases hk
    intro p c hp
    have hopened := allOpened_of_connect hnet hnil h p c hp
    rwa [Nat.zero_add] at hopened

end Connection

/-- A cluster that was set up with these participants, before any operation. -/
def Participants.Connected (ps : Participants) (s : System) : Prop :=
  ∃ (net : Network) (config : ClusterConfig) (preview : Preview) (plan : Plan)
    (connections : List Connection),
    (∀ p a peer, net.dial p a = .ok peer → peer = ps.peer p) ∧
    (Setup.run net config preview).outcome = .ok (plan, connections) ∧
    System.ofPlan config plan connections = .ok s

end SortLast
