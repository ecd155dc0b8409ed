import SortLast.Proofs.Cluster.Plan
import SortLast.Proofs.Cluster.Pacing

/-!
# Setups

A setup connects to the participants in order, tells each of them its part, and starts a worker for each.
It ends with connections that are all open and have all been told everything, or it fails at one
participant and leaves no connection open. A coordinator of these connections needs memory for its window
on top of that.

* `Network.reach`: the peer that answers a participant's address.
* `Setup.Greets`, `Setup.Tells`: connections after the greeting, and after the distribution.
* `Setup.Course`: the four ways in which a setup goes on from its plan; `Setup.course_of_connect`.
* `Setup.run_congr`: only the participants that are contacted matter.
* `System.connect_all_or_nothing`: what becomes of any attempt to set a cluster up.
-/

namespace SortLast

/-! ### One connection -/

namespace Network

/-- The peer that answers a participant's address. -/
def reach (net : Network) (participant : Nat) (address : ParticipantAddress) : Except IoError Peer :=
  net.resolve address >>= net.dial participant

/-- Two hosts that do the same for the first `n` participants. -/
structure Agrees (net net' : Network) (addresses : List ParticipantAddress) (n : Nat) : Prop where
  reach : ∀ p a, p < n → addresses[p]? = some a → net'.reach p a = net.reach p a
  startWorker : ∀ p < n, net'.startWorker p = net.startWorker p

/-- The worker of participant `p` is the first one that does not start. -/
structure FailsToStart (net : Network) (p : Nat) (cause : IoError) : Prop where
  failed : net.startWorker p = .error cause
  before : ∀ q < p, net.startWorker q = .ok ()

/-- Either all workers start, or there is a first one that does not. -/
theorem startWorkers_cases (net : Network) (count : Nat) :
    (net.startWorkers count = .ok () ∧ ∀ p < count, net.startWorker p = .ok ()) ∨
      ∃ p < count, ∃ e, net.startWorkers count = .error e ∧ net.FailsToStart p e := by
  induction count with
  | zero => exact .inl ⟨rfl, fun p hp => absurd hp (Nat.not_lt_zero p)⟩
  | succ n ih =>
    rcases ih with ⟨hall, heach⟩ | ⟨p, hp, e, hall, hfails⟩
    · have hlast : net.startWorkers (n + 1) = net.startWorker n := by
        rw [startWorkers, hall]
        rfl
      rcases hn : net.startWorker n with e | u
      · exact .inr ⟨n, Nat.lt_succ_self n, e, hlast.trans hn, hn, heach⟩
      · exact .inl ⟨hlast.trans hn, Nat.forall_lt_succ_right.2 ⟨heach, hn⟩⟩
    · refine .inr ⟨p, Nat.lt_succ_of_lt hp, e, ?_, hfails⟩
      rw [startWorkers, hall]
      rfl

theorem startWorkers_congr {net net' : Network} {count : Nat}
    (h : ∀ p < count, net'.startWorker p = net.startWorker p) :
    net'.startWorkers count = net.startWorkers count := by
  induction count with
  | zero => rfl
  | succ n ih =>
    obtain ⟨hbefore, hn⟩ := Nat.forall_lt_succ_right.1 h
    rw [startWorkers, startWorkers, ih hbefore, hn]

end Network

namespace Connection

variable {net : Network} {p : Nat} {address : ParticipantAddress} {peer : Peer} {c : Connection}

theorem open?_of_unreached {e : IoError} (h : net.reach p address = .error e) :
    open? net p address = (none, .error (.io e)) := by
  unfold open?
  cases hr : net.resolve address with
  | error d =>
    rw [Network.reach, hr] at h
    cases h
    rfl
  | ok socket =>
    rw [Network.reach, hr] at h
    change net.dial p socket = .error e at h
    simp only [h]

theorem open?_of_reached (h : net.reach p address = .ok peer) :
    open? net p address = ((some (handshake p peer).1), (handshake p peer).2) := by
  obtain ⟨socket, hr, hd⟩ := ok_of_bind h
  unfold open?
  simp only [hr, hd]

/-- However an exchange of versions ends, at most a greeting was sent; if it fails, the connection is
closed. -/
theorem handshake_sent (p : Nat) (peer : Peer) :
    ∃ part, part <+: Session.greeting ∧
      (handshake p peer).1.sink.accepted = peer.sink.accepted ++ part ∧
      (∀ e, (handshake p peer).2 = .error e → (handshake p peer).1.isConnected = false) ∧
      ∀ c, (handshake p peer).2 = .ok c → part = Session.greeting ∧ (handshake p peer).1 = c.proxy ∧
        c.proxy.participant = UInt64.ofNat p ∧ c.proxy.isConnected := by
  have hclosed : ∀ proxy : Proxy, proxy.close.isConnected = false := Proxy.close_isConnected
  unfold handshake
  rcases hput : peer.sink.put (.hello protocolVersion) with ⟨e | u, sink⟩
  · obtain ⟨part, hpart, hprefix, -⟩ := Sink.put_error hput
    exact ⟨part, hprefix, hpart, fun _ _ => hclosed _, fun c hc => by cases hc⟩
  · obtain ⟨-, ha⟩ := Sink.put_ok hput
    refine ⟨Session.greeting, List.prefix_rfl, ?_⟩
    dsimp only
    generalize Reading.hello (greetingSource (peer.respond sink.accepted)) = read
    rcases read with ⟨e | version, source⟩
    · exact ⟨ha, fun _ _ => hclosed _, fun c hc => by cases hc⟩
    · dsimp only
      split
      · exact ⟨ha, fun _ _ => hclosed _, fun c hc => by cases hc⟩
      · refine ⟨ha, (fun e he => by cases he), fun c hc => ?_⟩
        cases hc
        exact ⟨rfl, rfl, rfl, rfl⟩

end Connection

/-- Sending leaves an open connection open, if it succeeds. -/
theorem Proxy.sendAll_keeps {p q : Proxy} {cs : List Command} (h : p.sendAll cs = (.ok (), q)) :
    q.participant = p.participant ∧ q.isConnected = p.isConnected := by
  induction cs generalizing p with
  | nil =>
    cases h
    exact ⟨rfl, rfl⟩
  | cons c cs ih =>
    rw [sendAll] at h
    split at h
    · rename_i r hr
      obtain ⟨hsame, hopen⟩ := ih h
      have hstep : r.participant = p.participant ∧ r.isConnected = p.isConnected := by
        unfold send at hr
        split at hr
        · cases hr
        · split at hr
          · cases hr
            exact ⟨rfl, rfl⟩
          · cases hr
      exact ⟨hsame.trans hstep.1, hopen.trans hstep.2⟩
    · cases h

namespace Setup

/-- A sending end leads to participant `p`, and what it has sent there is `bytes`. -/
def Reached (net : Network) (addresses : List ParticipantAddress) (p : Nat) (proxy : Proxy)
    (bytes : List UInt8) : Prop :=
  ∃ address peer, addresses[p]? = some address ∧ net.reach p address = .ok peer ∧
    proxy.sink.accepted = peer.sink.accepted ++ bytes

variable {net : Network} {addresses : List ParticipantAddress} {plan : Plan} {p : Nat}
  {address : ParticipantAddress} {c : Connection} {proxy : Proxy} {bytes : List UInt8}

theorem Reached.congr (h : Reached net addresses p proxy bytes) {q : Proxy}
    (hq : q.sink = proxy.sink) : Reached net addresses p q bytes := by
  obtain ⟨address, peer, ha, hr, haccepted⟩ := h
  exact ⟨address, peer, ha, hr, by rw [hq, haccepted]⟩

/-- More is sent over the same connection. -/
theorem Reached.append (h : Reached net addresses p proxy bytes) {q : Proxy} {more : List UInt8}
    (hq : q.sink.accepted = proxy.sink.accepted ++ more) :
    Reached net addresses p q (bytes ++ more) := by
  obtain ⟨address, peer, ha, hr, haccepted⟩ := h
  exact ⟨address, peer, ha, hr, by rw [hq, haccepted, List.append_assoc]⟩

/-- A connection that was made has sent a greeting, and is open. -/
theorem reached_of_open? (ha : addresses[p]? = some address)
    (h : (Connection.open? net p address).2 = .ok c) :
    Reached net addresses p c.proxy Session.greeting ∧
      c.proxy.participant = UInt64.ofNat p ∧ c.proxy.isConnected := by
  cases hr : net.reach p address with
  | error e =>
    rw [Connection.open?_of_unreached hr] at h
    cases h
  | ok peer =>
    rw [Connection.open?_of_reached hr] at h
    obtain ⟨part, -, haccepted, -, hok⟩ := Connection.handshake_sent p peer
    obtain ⟨rfl, hproxy, hparticipant, hopen⟩ := hok c h
    exact ⟨⟨address, peer, ha, hr, hproxy ▸ haccepted⟩, hparticipant, hopen⟩

/-- A connection that could not be made is closed if the participant was reached at all, and has sent
no more than a greeting. -/
theorem reached_of_open?_error (ha : addresses[p]? = some address) {end? : Option Proxy} {e : NetError}
    (h : Connection.open? net p address = (end?, .error e)) :
    (end? = none ∧ ∃ cause, net.reach p address = .error cause) ∨
      ∃ proxy part, end? = some proxy ∧ proxy.isConnected = false ∧ part <+: Session.greeting ∧
        Reached net addresses p proxy part := by
  cases hr : net.reach p address with
  | error cause =>
    rw [Connection.open?_of_unreached hr] at h
    cases h
    exact .inl ⟨rfl, cause, rfl⟩
  | ok peer =>
    rw [Connection.open?_of_reached hr] at h
    obtain ⟨part, hpart, haccepted, herror, -⟩ := Connection.handshake_sent p peer
    simp only [Prod.mk.injEq] at h
    obtain ⟨rfl, h⟩ := h
    exact .inr ⟨_, part, rfl, herror e h, hpart, address, peer, ha, hr, haccepted⟩

/-! ### The course of a setup -/

/-- Connections to the first participants, after the exchange of versions. -/
def Greets (net : Network) (addresses : List ParticipantAddress) (cs : List Connection) : Prop :=
  ∀ (p : Nat) (c : Connection), cs[p]? = some c → ∃ address, addresses[p]? = some address ∧
    (Connection.open? net p address).2 = .ok c

/-- The first of the connections `cs` after each was told its part. -/
def Tells (plan : Plan) (cs told : List Connection) : Prop :=
  ∀ (p : Nat) (t : Connection), told[p]? = some t → ∃ c bricks proxy, cs[p]? = some c ∧
    plan.bricks[p]? = some bricks ∧
    c.proxy.sendAll (plan.commands bricks) = (.ok (), proxy) ∧ t = { c with proxy }

/-- How a setup goes on from its plan. -/
inductive Course (net : Network) (addresses : List ParticipantAddress) (plan : Plan) : Setup → Prop
  /-- The connection to one participant fails. -/
  | unreached {cs : List Connection} {address : ParticipantAddress} {end? : Option Proxy}
      {e : NetError} : Greets net addresses cs → addresses[cs.length]? = some address →
      Connection.open? net cs.length address = (end?, .error e) →
      Course net addresses plan
        (failed (cs.length + 1) (cs.map Connection.proxy ++ end?.toList) (.socket cs.length e))
  /-- All connections are made, and one participant cannot be told its part. -/
  | untold {cs told rest : List Connection} {c : Connection} {bricks : List (List Brick)}
      {proxy : Proxy} {e : NetError} : Greets net addresses cs → cs.length = addresses.length →
      Tells plan cs told → cs.drop told.length = c :: rest →
      plan.bricks[told.length]? = some bricks →
      c.proxy.sendAll (plan.commands bricks) = (.error e, proxy) →
      Course net addresses plan
        (failed cs.length (told.map Connection.proxy ++ proxy :: rest.map Connection.proxy)
          (.socket told.length e))
  /-- All participants are told their parts, and the worker of one does not start. -/
  | unstarted {cs told : List Connection} {p : Nat} {e : IoError} : Greets net addresses cs →
      cs.length = addresses.length → Tells plan cs told → told.length = cs.length → p < told.length →
      net.FailsToStart p e →
      Course net addresses plan (failed told.length (told.map Connection.proxy) (.io e))
  /-- All participants are told their parts, and all workers start. -/
  | complete {cs told : List Connection} : Greets net addresses cs → cs.length = addresses.length →
      Tells plan cs told → told.length = cs.length → (∀ p < told.length, net.startWorker p = .ok ()) →
      Course net addresses plan ⟨told.length, told.map Connection.proxy, .ok (plan, told)⟩

theorem Greets.concat {cs : List Connection} (h : Greets net addresses cs)
    (ha : addresses[cs.length]? = some address)
    (hc : (Connection.open? net cs.length address).2 = .ok c) : Greets net addresses (cs ++ [c]) := by
  intro p d hd
  rw [List.getElem?_append] at hd
  split at hd
  · exact h p d hd
  · rename_i hp
    obtain ⟨hzero, rfl⟩ : p - cs.length = 0 ∧ c = d := by
      cases hk : p - cs.length with
      | zero => rw [hk] at hd; exact ⟨rfl, Option.some.inj hd⟩
      | succ k => rw [hk] at hd; cases hd
    obtain rfl : p = cs.length := by omega
    exact ⟨address, ha, hc⟩

theorem Greets.length_le {cs : List Connection} (h : Greets net addresses cs) :
    cs.length ≤ addresses.length := by
  cases hn : cs.length with
  | zero => exact Nat.zero_le _
  | succ n =>
    obtain ⟨address, ha, -⟩ := h n cs[n] (List.getElem?_eq_getElem (by omega))
    exact (List.getElem?_eq_some_iff.1 ha).1

theorem Tells.concat {cs told : List Connection} (h : Tells plan cs told)
    (hc : cs[told.length]? = some c) {bricks : List (List Brick)}
    (hb : plan.bricks[told.length]? = some bricks)
    (hs : c.proxy.sendAll (plan.commands bricks) = (.ok (), proxy)) :
    Tells plan cs (told ++ [{ c with proxy }]) := by
  intro p t hp
  rw [List.getElem?_append] at hp
  split at hp
  · exact h p t hp
  · rename_i hlt
    obtain ⟨rfl, rfl⟩ : p = told.length ∧ { c with proxy } = t := by
      cases hk : p - told.length with
      | zero =>
        rw [hk] at hp
        exact ⟨by omega, Option.some.inj hp⟩
      | succ k =>
        rw [hk] at hp
        cases hp
    exact ⟨c, bricks, proxy, hc, hb, hs, rfl⟩

theorem course_of_launch {cs told : List Connection} (hg : Greets net addresses cs)
    (hlength : cs.length = addresses.length) (ht : Tells plan cs told) (hall : told.length = cs.length) :
    Course net addresses plan
      (launch ⟨told.length, told.map Connection.proxy, .ok (plan, told)⟩ net) := by
  unfold launch
  dsimp only
  rcases net.startWorkers_cases told.length with ⟨hstart, heach⟩ | ⟨p, hp, e, hstart, hfails⟩
  · rw [hstart]
    exact .complete hg hlength ht hall heach
  · rw [hstart]
    exact .unstarted hg hlength ht hall hp hfails

/-- What is left of a list from a position on tells what stands there. -/
theorem of_drop_eq_cons {α : Type} {l rest : List α} {n : Nat} {a : α} (h : l.drop n = a :: rest) :
    l[n]? = some a ∧ l.drop (n + 1) = rest :=
  ⟨by rw [← List.head?_drop, h, List.head?_cons], by rw [← List.tail_drop, h, List.tail_cons]⟩

theorem course_of_distribute {cs told rest : List Connection} {lists : List (List (List Brick))}
    (hg : Greets net addresses cs) (hlength : cs.length = addresses.length)
    (hbricks : plan.bricks.length = cs.length) (ht : Tells plan cs told)
    (hle : told.length ≤ cs.length) (hrest : cs.drop told.length = rest)
    (hlists : plan.bricks.drop told.length = lists) :
    Course net addresses plan ((distribute plan told.length told rest lists).launch net) := by
  induction rest generalizing told lists with
  | nil =>
    have hall : told.length = cs.length := Nat.le_antisymm hle (List.drop_eq_nil_iff.1 hrest)
    have hend : distribute plan told.length told [] lists =
        ⟨told.length, told.map Connection.proxy, .ok (plan, told)⟩ := by
      show Setup.mk (told ++ []).length ((told ++ []).map Connection.proxy) (.ok (plan, told ++ [])) = _
      rw [List.append_nil]
    rw [hend]
    exact course_of_launch hg hlength ht hall
  | cons c rest ih =>
    obtain ⟨hc, hrest'⟩ := of_drop_eq_cons hrest
    have hlt : told.length < cs.length := (List.getElem?_eq_some_iff.1 hc).1
    cases lists with
    | nil =>
      have := List.drop_eq_nil_iff.1 hlists
      omega
    | cons bricks lists =>
      obtain ⟨hb, hlists'⟩ := of_drop_eq_cons hlists
      rw [Connection.distribute_cons]
      split
      · rename_i proxy hs
        have hnext : (told ++ [{ c with proxy }]).length = told.length + 1 := List.length_append
        rw [← hnext]
        refine ih (ht.concat hc hb hs) (by omega) ?_ ?_
        · rw [hnext, hrest']
        · rw [hnext, hlists']
      · rename_i e proxy hs
        have hcount : told.length + 1 + rest.length = cs.length := by
          have hdrop := congrArg List.length hrest
          rw [List.length_drop, List.length_cons] at hdrop
          omega
        rw [hcount]
        exact .untold hg hlength ht hrest hb hs

/-- From its plan on, a setup takes one of the four courses. -/
theorem course_of_connect {opened : List Connection} {rest : List ParticipantAddress}
    (hg : Greets net addresses opened) (hbricks : plan.bricks.length = addresses.length)
    (hrest : addresses.drop opened.length = rest) :
    Course net addresses plan (connect net plan opened.length opened rest) := by
  induction rest generalizing opened with
  | nil =>
    have hlength : opened.length = addresses.length :=
      Nat.le_antisymm hg.length_le (List.drop_eq_nil_iff.1 hrest)
    have hnobody : Tells plan opened [] := fun p t ht => by cases ht
    exact course_of_distribute hg hlength (hbricks.trans hlength.symm) hnobody (Nat.zero_le _) rfl rfl
  | cons address rest ih =>
    obtain ⟨ha, hrest'⟩ := of_drop_eq_cons hrest
    rw [Connection.connect_cons]
    split
    · rename_i c hc
      have hnext : (opened ++ [c]).length = opened.length + 1 := List.length_append
      rw [← hnext]
      refine ih (hg.concat ha (congrArg Prod.snd hc)) ?_
      rw [hnext, hrest']
    · rename_i end? e he
      exact .unreached hg ha he

/-! ### Who matters -/

theorem open?_congr {net' : Network} (h : net'.reach p address = net.reach p address) :
    Connection.open? net' p address = Connection.open? net p address := by
  cases hr : net.reach p address with
  | error e =>
    rw [Connection.open?_of_unreached hr, Connection.open?_of_unreached (h.trans hr)]
  | ok peer =>
    rw [Connection.open?_of_reached hr, Connection.open?_of_reached (h.trans hr)]

theorem launch_contacted (s : Setup) (net : Network) : (s.launch net).contacted = s.contacted := by
  rcases Connection.launch_cases s net with ⟨hsame, -⟩ | ⟨plan, connections, e, -, -, hfailed⟩
  · rw [hsame]
  · rw [hfailed]
    rfl

theorem distribute_contacted (plan : Plan) (next : Nat) (told rest : List Connection)
    (lists : List (List (List Brick))) :
    (distribute plan next told rest lists).contacted = told.length + rest.length := by
  induction rest generalizing next told lists with
  | nil => exact List.length_append
  | cons c rest ih =>
    cases lists with
    | nil => exact List.length_append
    | cons bricks lists =>
      rw [Connection.distribute_cons]
      split
      · rw [ih, List.length_append, List.length_singleton, List.length_cons]
        omega
      · rw [List.length_cons]
        show told.length + 1 + rest.length = _
        omega

/-- Workers are started for those who are contacted. -/
theorem length_of_distribute {next : Nat} {told rest connections : List Connection}
    {lists : List (List (List Brick))} {plan' : Plan}
    (h : (distribute plan next told rest lists).outcome = .ok (plan', connections)) :
    connections.length = told.length + rest.length := by
  induction rest generalizing next told lists with
  | nil =>
    cases h
    exact List.length_append
  | cons c rest ih =>
    cases lists with
    | nil =>
      cases h
      exact List.length_append
    | cons bricks lists =>
      rw [Connection.distribute_cons] at h
      split at h
      · rw [ih h, List.length_append, List.length_singleton, List.length_cons]
        omega
      · cases h

theorem launch_congr {net' : Network} {s : Setup}
    (h : ∀ plan connections, s.outcome = .ok (plan, connections) →
      ∀ p < connections.length, net'.startWorker p = net.startWorker p) :
    s.launch net' = s.launch net := by
  unfold launch
  rcases ho : s.outcome with e | ⟨plan, connections⟩
  · rfl
  · dsimp only
    rw [Network.startWorkers_congr (h plan connections ho)]

theorem le_connect_contacted (net : Network) (plan : Plan) (opened : List Connection)
    (rest : List ParticipantAddress) :
    opened.length ≤ (connect net plan opened.length opened rest).contacted := by
  induction rest generalizing opened with
  | nil =>
    rw [Connection.connect_nil, launch_contacted, distribute_contacted]
    exact Nat.le_add_left _ _
  | cons address rest ih =>
    rw [Connection.connect_cons]
    split
    · rename_i c hc
      have hle := ih (opened ++ [c])
      rw [List.length_append, List.length_singleton] at hle
      exact Nat.le_of_succ_le hle
    · exact Nat.le_succ _

/-- Whoever is not contacted does not matter. -/
theorem connect_congr {net' : Network} {n : Nat} (hagree : net.Agrees net' addresses n)
    {opened : List Connection} {rest : List ParticipantAddress}
    (hrest : addresses.drop opened.length = rest)
    (hn : (connect net plan opened.length opened rest).contacted ≤ n) :
    connect net' plan opened.length opened rest = connect net plan opened.length opened rest := by
  induction rest generalizing opened with
  | nil =>
    rw [Connection.connect_nil, launch_contacted, distribute_contacted] at hn
    rw [Connection.connect_nil, Connection.connect_nil]
    refine launch_congr fun plan' connections h p hp => hagree.startWorker p ?_
    rw [length_of_distribute h] at hp
    omega
  | cons address rest ih =>
    obtain ⟨ha, hrest'⟩ := of_drop_eq_cons hrest
    rw [Connection.connect_cons] at hn
    rw [Connection.connect_cons, Connection.connect_cons]
    rcases ho : Connection.open? net opened.length address with ⟨end?, e | c⟩ <;> rw [ho] at hn
    · have hlt : opened.length < n := hn
      rw [open?_congr (hagree.reach _ _ hlt ha), ho]
    · have hnext : (opened ++ [c]).length = opened.length + 1 := List.length_append
      rw [← hnext] at hn
      have hlt := (le_connect_contacted net plan (opened ++ [c]) rest).trans hn
      rw [hnext] at hlt
      rw [open?_congr (hagree.reach _ _ hlt ha), ho]
      have hsame := ih (by rw [hnext, hrest']) hn
      rwa [hnext] at hsame

theorem run_congr {net' : Network} (config : ClusterConfig) (preview : Preview)
    (hagree : net.Agrees net' config.participants (run net config preview).contacted) :
    run net' config preview = run net config preview := by
  cases hm : Plan.make config preview with
  | error e => rw [run, run, hm]
  | ok plan =>
    rw [run, hm] at hagree
    rw [run, run, hm]
    have hsame : connect net' plan ([] : List Connection).length [] config.participants = _ :=
      connect_congr hagree rfl (Nat.le_refl _)
    exact hsame

/-! ### What is left of a setup -/

/-- The setup is complete: every participant is connected, was sent a greeting and its part, and nothing
else, and has a worker. -/
structure Complete (net : Network) (config : ClusterConfig) (preview : Preview) (s : Setup)
    (plan : Plan) (connections : List Connection) : Prop where
  made : Plan.make config preview = .ok plan
  window : plan.dims.1.toInt = config.width.toNat ∧ plan.dims.2.toInt = config.height.toNat
  currentFrame : plan.currentFrame.toInt =
    min preview.volume.currentFrame.toNat ClusterConfig.maxSide
  length : connections.length = config.participants.length
  contacted : s.contacted = connections.length
  opened : s.opened = connections.map Connection.proxy
  told : ∀ (p : Nat) (c : Connection), connections[p]? = some c →
    c.proxy.participant = UInt64.ofNat p ∧ c.proxy.isConnected ∧
      ∃ lists, plan.Assigns config preview p lists ∧
        Reached net config.participants p c.proxy (Session.greeting ++
          (.resize plan.dims.1 plan.dims.2 :: .currentFrame plan.currentFrame ::
            lists.map .bricks).flatMap Command.bytes)
  started : ∀ p < connections.length, net.startWorker p = .ok ()

/-- The connection to participant `p` has failed, those before it are made, nobody after it is
contacted, and nobody is sent more than a greeting. -/
structure FailsToConnect (net : Network) (config : ClusterConfig) (s : Setup) (p : Nat)
    (cause : NetError) : Prop where
  failed : ∃ address, config.participants[p]? = some address ∧
    (Connection.open? net p address).2 = .error cause
  before : ∀ q < p, ∃ address c, config.participants[q]? = some address ∧
    (Connection.open? net q address).2 = .ok c
  contacted : s.contacted = p + 1
  sent : ∀ (q : Nat) (proxy : Proxy), s.opened[q]? = some proxy → ∃ part, part <+: Session.greeting ∧
    (q < p → part = Session.greeting) ∧ Reached net config.participants q proxy part

/-- Everybody is connected, and participants are told their parts in order up to participant `p`, which
cannot be told. -/
structure FailsToTell (net : Network) (config : ClusterConfig) (preview : Preview) (s : Setup) (p : Nat)
    (cause : NetError) : Prop where
  contacted : s.contacted = config.participants.length
  connected : ∀ (q : Nat) (address : ParticipantAddress), config.participants[q]? = some address →
    ∃ c, (Connection.open? net q address).2 = .ok c
  told : ∃ plan, Plan.make config preview = .ok plan ∧ ∀ q ≤ p, ∃ address c lists,
    config.participants[q]? = some address ∧ (Connection.open? net q address).2 = .ok c ∧
      plan.Assigns config preview q lists ∧
      (c.proxy.sendAll (plan.commands lists)).1 = if q = p then .error cause else .ok ()
  after : ∀ (q : Nat) (proxy : Proxy), p < q → s.opened[q]? = some proxy →
    Reached net config.participants q proxy Session.greeting

/-- Everybody is connected and told its part, and the worker of one participant does not start. -/
structure FailsToLaunch (net : Network) (config : ClusterConfig) (preview : Preview) (s : Setup)
    (cause : IoError) : Prop where
  contacted : s.contacted = config.participants.length
  told : ∃ plan, Plan.make config preview = .ok plan ∧ ∀ q address,
    config.participants[q]? = some address → ∃ c lists proxy, (Connection.open? net q address).2 = .ok c ∧
      plan.Assigns config preview q lists ∧ c.proxy.sendAll (plan.commands lists) = (.ok (), proxy) ∧
      s.opened[q]? = some proxy.close
  worker : ∃ p < config.participants.length, net.FailsToStart p cause

variable {config : ClusterConfig} {preview : Preview} {cs told rest : List Connection}

/-- A connection that was told its part is the one that was made, with more on its stream. -/
theorem Tells.sends (ht : Tells plan cs told) (hg : Greets net config.participants cs)
    (hm : Plan.make config preview = .ok plan) {t : Connection} (hp : told[p]? = some t) :
    ∃ address c lists, config.participants[p]? = some address ∧
      (Connection.open? net p address).2 = .ok c ∧ plan.Assigns config preview p lists ∧
      c.proxy.sendAll (plan.commands lists) = (.ok (), t.proxy) := by
  obtain ⟨c, lists, proxy, hc, hlists, hs, rfl⟩ := ht p t hp
  obtain ⟨address, ha, hopen⟩ := hg p c hc
  exact ⟨address, c, lists, ha, hopen, Plan.assigns_of_make hm hlists, hs⟩

theorem complete_of_tells (hm : Plan.make config preview = .ok plan)
    (hg : Greets net config.participants cs) (hlength : cs.length = config.participants.length)
    (ht : Tells plan cs told) (hall : told.length = cs.length)
    (hstart : ∀ p < told.length, net.startWorker p = .ok ()) :
    Complete net config preview ⟨told.length, told.map Connection.proxy, .ok (plan, told)⟩ plan told where
  made := hm
  window := ClusterConfig.windowDims_ok (Plan.made_of_make hm).window
  currentFrame := by
    rw [(Plan.made_of_make hm).currentFrame, Plan.sentFrame]
    exact Int32.toInt_ofNat_of_lt (by unfold ClusterConfig.maxSide; omega)
  length := hall.trans hlength
  contacted := rfl
  opened := rfl
  told := by
    intro p t hp
    obtain ⟨address, c, lists, ha, hopen, hlists, hs⟩ := ht.sends hg hm hp
    obtain ⟨hreached, hparticipant, hconnected⟩ := reached_of_open? ha hopen
    obtain ⟨-, haccepted, -⟩ := Proxy.sendAll_ok hs
    obtain ⟨hsame, hopen⟩ := Proxy.sendAll_keeps hs
    exact ⟨hsame.trans hparticipant, hopen.trans hconnected, lists, hlists,
      hreached.append haccepted⟩
  started := hstart

/-- A setup that fails closes every connection that it has opened. -/
theorem getElem?_of_failed {contacted q : Nat} {opened : List Proxy} {e : ClusterError}
    (h : (failed contacted opened e).opened[q]? = some proxy) :
    ∃ before, opened[q]? = some before ∧ proxy = before.close := by
  obtain ⟨before, hq, rfl⟩ := Option.map_eq_some_iff.1 ((List.getElem?_map ..).symm.trans h)
  exact ⟨before, hq, rfl⟩

theorem isConnected_of_mem_failed {contacted : Nat} {opened : List Proxy} {e : ClusterError}
    (h : proxy ∈ (failed contacted opened e).opened) : proxy.isConnected = false := by
  obtain ⟨before, -, rfl⟩ := List.mem_map.1 h
  exact before.close_isConnected

theorem failsToConnect_of_error (hg : Greets net config.participants cs)
    (ha : config.participants[cs.length]? = some address) {end? : Option Proxy} {e : NetError}
    (h : Connection.open? net cs.length address = (end?, .error e)) :
    FailsToConnect net config
      (failed (cs.length + 1) (cs.map Connection.proxy ++ end?.toList) (.socket cs.length e))
      cs.length e where
  failed := ⟨address, ha, congrArg Prod.snd h⟩
  before := by
    intro q hq
    obtain ⟨a, ha, hopen⟩ := hg q cs[q] (List.getElem?_eq_getElem hq)
    exact ⟨a, cs[q], ha, hopen⟩
  contacted := rfl
  sent := by
    intro q closed hclosed
    obtain ⟨proxy, hq, rfl⟩ := getElem?_of_failed hclosed
    rw [List.getElem?_append, List.length_map] at hq
    split at hq
    · rename_i hlt
      obtain ⟨c, hc, rfl⟩ := Option.map_eq_some_iff.1 ((List.getElem?_map ..).symm.trans hq)
      obtain ⟨a, ha, hopen⟩ := hg q c hc
      exact ⟨_, List.prefix_rfl, fun _ => rfl, (reached_of_open? ha hopen).1.congr rfl⟩
    · rename_i hlt
      rcases reached_of_open?_error ha h with ⟨rfl, -⟩ | ⟨last, part, rfl, -, hpart, hreached⟩
      · cases hq
      · obtain rfl : q = cs.length := by
          have := (List.getElem?_eq_some_iff.1 hq).1
          rw [Option.length_toList, Option.isSome_some, if_pos rfl] at this
          omega
        rw [Nat.sub_self] at hq
        cases hq
        exact ⟨part, hpart, fun h => absurd h hlt, hreached.congr rfl⟩

theorem failsToTell_of_error (hm : Plan.make config preview = .ok plan)
    (hg : Greets net config.participants cs) (hlength : cs.length = config.participants.length)
    (ht : Tells plan cs told) (hrest : cs.drop told.length = c :: rest) {bricks : List (List Brick)}
    (hb : plan.bricks[told.length]? = some bricks) {e : NetError}
    (hs : c.proxy.sendAll (plan.commands bricks) = (.error e, proxy)) :
    FailsToTell net config preview
      (failed cs.length (told.map Connection.proxy ++ proxy :: rest.map Connection.proxy)
        (.socket told.length e)) told.length e where
  contacted := hlength
  connected := by
    intro q a ha
    have hq : q < cs.length := by
      rw [hlength]
      exact (List.getElem?_eq_some_iff.1 ha).1
    obtain ⟨a', ha', hopen⟩ := hg q cs[q] (List.getElem?_eq_getElem hq)
    cases ha.symm.trans ha'
    exact ⟨cs[q], hopen⟩
  told := by
    refine ⟨plan, hm, fun q hq => ?_⟩
    rcases Nat.lt_or_eq_of_le hq with hlt | rfl
    · obtain ⟨a, d, lists, ha, hopen, hlists, hsent⟩ :=
        ht.sends hg hm (List.getElem?_eq_getElem hlt)
      exact ⟨a, d, lists, ha, hopen, hlists, by rw [hsent, if_neg (Nat.ne_of_lt hlt)]⟩
    · obtain ⟨a, ha, hopen⟩ := hg _ c (of_drop_eq_cons hrest).1
      exact ⟨a, c, bricks, ha, hopen, Plan.assigns_of_make hm hb, by rw [hs, if_pos rfl]⟩
  after := by
    intro q closed hq hclosed
    obtain ⟨last, hget, rfl⟩ := getElem?_of_failed hclosed
    obtain ⟨k, rfl⟩ : ∃ k, q = told.length + (k + 1) := ⟨q - told.length - 1, by omega⟩
    rw [List.getElem?_append_right (by rw [List.length_map]; omega), List.length_map,
      Nat.add_sub_cancel_left, List.getElem?_cons_succ] at hget
    obtain ⟨d, hd, rfl⟩ := Option.map_eq_some_iff.1 ((List.getElem?_map ..).symm.trans hget)
    have hd : cs[told.length + (k + 1)]? = some d := by
      rw [← List.getElem?_drop, hrest, List.getElem?_cons_succ, hd]
    obtain ⟨a, ha, hopen⟩ := hg _ d hd
    exact (reached_of_open? ha hopen).1.congr rfl

theorem failsToLaunch_of_unstarted (hm : Plan.make config preview = .ok plan)
    (hg : Greets net config.participants cs) (hlength : cs.length = config.participants.length)
    (ht : Tells plan cs told) (hall : told.length = cs.length) (hp : p < told.length) {e : IoError}
    (hfails : net.FailsToStart p e) :
    FailsToLaunch net config preview (failed told.length (told.map Connection.proxy) (.io e)) e where
  contacted := hall.trans hlength
  told := by
    refine ⟨plan, hm, fun q a ha => ?_⟩
    have hq : q < told.length := by
      rw [hall, hlength]
      exact (List.getElem?_eq_some_iff.1 ha).1
    have htold : told[q]? = some told[q] := List.getElem?_eq_getElem hq
    obtain ⟨a', c, lists, ha', hopen, hlists, hsent⟩ := ht.sends hg hm htold
    cases ha.symm.trans ha'
    refine ⟨c, lists, _, hopen, hlists, hsent, ?_⟩
    rw [failed, List.getElem?_map, List.getElem?_map, htold]
    rfl
  worker := ⟨p, by rwa [← hlength, ← hall], hfails⟩

theorem exists_reach (h : Reached net addresses p proxy bytes) (ha : addresses[p]? = some address) :
    ∃ peer, net.reach p address = .ok peer := by
  obtain ⟨a, peer, ha', hr, -⟩ := h
  cases ha.symm.trans ha'
  exact ⟨peer, hr⟩

theorem Greets.exists_reach (hg : Greets net addresses cs) (hp : p < cs.length)
    (ha : addresses[p]? = some address) : ∃ peer, net.reach p address = .ok peer := by
  obtain ⟨a, ha', hopen⟩ := hg p cs[p] (List.getElem?_eq_getElem hp)
  exact Setup.exists_reach (reached_of_open? ha' hopen).1 ha

/-- Of those who are contacted, the connections of all who answered are on record. -/
theorem Course.reach_iff {s : Setup} (h : Course net addresses plan s)
    (ha : addresses[p]? = some address) (hp : p < s.contacted) :
    (∃ peer, net.reach p address = .ok peer) ↔ p < s.opened.length := by
  cases h with
  | @unreached cs last end? e hg hlast he =>
    have hp : p < cs.length + 1 := hp
    show _ ↔ p < ((cs.map Connection.proxy ++ end?.toList).map Proxy.close).length
    rw [List.length_map, List.length_append, List.length_map]
    rcases Nat.lt_succ_iff_lt_or_eq.1 hp with hlt | rfl
    · exact iff_of_true (hg.exists_reach hlt ha) (by omega)
    · cases ha.symm.trans hlast
      rcases reached_of_open?_error hlast he with ⟨rfl, cause, hr⟩ | ⟨proxy, part, rfl, -, -, hreached⟩
      · refine iff_of_false ?_ (Nat.lt_irrefl _)
        rintro ⟨peer, hpeer⟩
        cases hr.symm.trans hpeer
      · exact iff_of_true (Setup.exists_reach hreached ha) (Nat.lt_succ_self _)
  | @untold cs told rest c bricks proxy e hg hlength ht hrest hb hs =>
    have hp : p < cs.length := hp
    refine iff_of_true (hg.exists_reach hp ha) ?_
    show p < ((told.map Connection.proxy ++ proxy :: rest.map Connection.proxy).map Proxy.close).length
    have hdrop := congrArg List.length hrest
    rw [List.length_drop, List.length_cons] at hdrop
    rw [List.length_map, List.length_append, List.length_cons, List.length_map, List.length_map]
    omega
  | @unstarted cs told q e hg hlength ht hall hq hfails =>
    have hp : p < told.length := hp
    refine iff_of_true (hg.exists_reach (hall ▸ hp) ha) ?_
    show p < ((told.map Connection.proxy).map Proxy.close).length
    rwa [List.length_map, List.length_map]
  | @complete cs told hg hlength ht hall hstart =>
    have hp : p < told.length := hp
    refine iff_of_true (hg.exists_reach (hall ▸ hp) ha) ?_
    show p < (told.map Connection.proxy).length
    rwa [List.length_map]

/-- The coordinator of a complete setup begins with all participants live. -/
theorem Complete.client {s : Setup} {connections : List Connection} {t : System}
    (h : Complete net config preview s plan connections)
    (ht : System.ofPlan config plan connections = .ok t) : t.coordinator.proxies = s.opened ∧
      t.liveParticipants = List.range config.participants.length := by
  obtain ⟨hproxies, -, hpool, -, -⟩ := System.ofPlan_eq ht
  refine ⟨hproxies.trans h.opened.symm, ?_⟩
  rw [System.liveParticipants, System.participantCount_ofPlan ht, h.length, List.filter_eq_self]
  intro p hp
  have hp : p < connections.length := by
    rw [h.length]
    exact List.mem_range.1 hp
  have hsits := System.sits_of_ofPlan ht (List.getElem?_eq_getElem hp)
  rw [hsits.isConnected, hsits.isAlive, Bool.and_true]
  exact (h.told p _ (List.getElem?_eq_getElem hp)).2.1

section

variable {s : Setup}

theorem Course.all_or_nothing (h : Course net config.participants plan s)
    (hm : Plan.make config preview = .ok plan) :
    match s.outcome with
    | .ok (plan', connections) => Complete net config preview s plan' connections
    | .error _ => ∀ proxy ∈ s.opened, proxy.isConnected = false := by
  cases h with
  | unreached => exact fun proxy h => isConnected_of_mem_failed h
  | untold => exact fun proxy h => isConnected_of_mem_failed h
  | unstarted => exact fun proxy h => isConnected_of_mem_failed h
  | complete hg hlength ht hall hstart => exact complete_of_tells hm hg hlength ht hall hstart

/-- With a plan, it is always one participant that a setup fails at, or one worker. -/
theorem Course.cause_of_error (h : Course net addresses plan s) {e : ClusterError}
    (he : s.outcome = .error e) : (∃ p cause, e = .socket p cause) ∨ ∃ cause, e = .io cause := by
  cases h with
  | unreached =>
    cases he
    exact .inl ⟨_, _, rfl⟩
  | untold =>
    cases he
    exact .inl ⟨_, _, rfl⟩
  | unstarted =>
    cases he
    exact .inr ⟨_, rfl⟩
  | complete => cases he

theorem Course.fails (h : Course net config.participants plan s)
    (hm : Plan.make config preview = .ok plan) {cause : NetError}
    (he : s.outcome = .error (.socket p cause)) :
    FailsToConnect net config s p cause ∨ FailsToTell net config preview s p cause := by
  cases h with
  | unreached hg ha h =>
    cases he
    exact .inl (failsToConnect_of_error hg ha h)
  | untold hg hlength ht hrest hb hs =>
    cases he
    exact .inr (failsToTell_of_error hm hg hlength ht hrest hb hs)
  | unstarted => cases he
  | complete => cases he

theorem Course.failsToLaunch (h : Course net config.participants plan s)
    (hm : Plan.make config preview = .ok plan) {cause : IoError}
    (he : s.outcome = .error (.io cause)) : FailsToLaunch net config preview s cause := by
  cases h with
  | unreached => cases he
  | untold => cases he
  | unstarted hg hlength ht hall hp hfails =>
    cases he
    exact failsToLaunch_of_unstarted hm hg hlength ht hall hp hfails
  | complete => cases he

end

/-- A setup goes on from its plan. -/
theorem course_of_run (hm : Plan.make config preview = .ok plan) :
    Course net config.participants plan (run net config preview) := by
  have hnobody : Greets net config.participants [] := fun p c hc => by cases hc
  rw [run, hm]
  exact course_of_connect hnobody (Plan.make_ok hm).2 rfl

theorem run_of_rejected {e : ClusterError} (hm : Plan.make config preview = .error e) :
    run net config preview = { outcome := .error e } := by
  rw [run, hm]

/-- A setup that gives connections was planned, and they are what is left of its distribution. -/
theorem course_of_ok {connections : List Connection}
    (h : (run net config preview).outcome = .ok (plan, connections)) :
    Plan.make config preview = .ok plan ∧ ∃ cs, Greets net config.participants cs ∧
      cs.length = config.participants.length ∧ Tells plan cs connections ∧
      connections.length = cs.length := by
  cases hm : Plan.make config preview with
  | error e =>
    rw [run_of_rejected hm] at h
    cases h
  | ok plan' =>
    have hcourse : Course net config.participants plan' (run net config preview) := course_of_run hm
    generalize run net config preview = s at h hcourse
    cases hcourse with
    | unreached => cases h
    | untold => cases h
    | unstarted => cases h
    | complete hg hlength ht hall =>
      cases h
      exact ⟨rfl, _, hg, hlength, ht, hall⟩

/-- After a setup every participant has a connection, and was told its part over it. -/
theorem told_of_run {connections : List Connection}
    (h : (run net config preview).outcome = .ok (plan, connections)) :
    connections.length = config.participants.length ∧
      ∀ (p : Nat) (t : Connection), connections[p]? = some t → ∃ address c lists,
        config.participants[p]? = some address ∧ (Connection.open? net p address).2 = .ok c ∧
          plan.Assigns config preview p lists ∧
          c.proxy.sendAll (plan.commands lists) = (.ok (), t.proxy) := by
  obtain ⟨hm, cs, hg, hlength, ht, hall⟩ := course_of_ok h
  exact ⟨hall.trans hlength, fun p t hp => ht.sends hg hm hp⟩

end Setup

/-! ### The coordinator of a setup -/

/-- The window of a configuration can be held in memory. -/
def ClusterConfig.Holds (config : ClusterConfig) : Prop :=
  Framebuffer.area config.width config.height * 16 ≤ maxBufferBytes

instance (config : ClusterConfig) : Decidable config.Holds := inferInstanceAs (Decidable (_ ≤ _))

namespace System

variable {net : Network} {config : ClusterConfig} {preview : Preview} {plan : Plan}
  {connections : List Connection}

/-- All that a coordinator needs besides connections is memory for its window. -/
theorem ofPlan_cases (config : ClusterConfig) (plan : Plan) (connections : List Connection) :
    (config.Holds ∧ ∃ s, ofPlan config plan connections = .ok s) ∨
      (¬ config.Holds ∧ ofPlan config plan connections = .error .capacity) := by
  unfold ofPlan Coordinator.ofPlan Framebuffer.allocate checkCapacity
  by_cases hfits : config.Holds
  · rw [if_neg (Nat.not_lt.2 hfits)]
    exact .inl ⟨hfits, _, rfl⟩
  · rw [if_pos (Nat.lt_of_not_le hfits)]
    exact .inr ⟨hfits, rfl⟩

theorem connect_of_error {e : ClusterError} (h : (Setup.run net config preview).outcome = .error e) :
    connect net config preview = .ok (.error e) := by
  rw [connect, h]

theorem connect_of_ok (h : (Setup.run net config preview).outcome = .ok (plan, connections)) :
    connect net config preview = (ofPlan config plan connections).map fun s =>
      .ok (connections.map Connection.peer, s) := by
  rw [connect, h]
  dsimp only
  cases ofPlan config plan connections <;> rfl

/-- What becomes of an attempt to set a cluster up. It gives a coordinator if the setup is complete and
memory can hold the window; it gives an error if the setup does, and then no connection is open; and if
memory cannot hold the window of a complete setup, it gives neither. -/
inductive Attempt (net : Network) (config : ClusterConfig) (preview : Preview) :
    Except Fault (Except ClusterError (List Peer × System)) → Prop
  | client {plan : Plan} {connections : List Connection} {s : System} :
      Setup.Complete net config preview (Setup.run net config preview) plan connections →
      config.Holds → s.coordinator.proxies = (Setup.run net config preview).opened →
      s.liveParticipants = List.range config.participants.length →
      Attempt net config preview (.ok (.ok (connections.map Connection.peer, s)))
  | error {e : ClusterError} : (Setup.run net config preview).outcome = .error e →
      (∀ proxy ∈ (Setup.run net config preview).opened, proxy.isConnected = false) →
      Attempt net config preview (.ok (.error e))
  | fault {plan : Plan} {connections : List Connection} :
      Setup.Complete net config preview (Setup.run net config preview) plan connections →
      ¬ config.Holds → Attempt net config preview (.error .capacity)

theorem attempt_of_connect (net : Network) (config : ClusterConfig) (preview : Preview) :
    Attempt net config preview (connect net config preview) := by
  cases hm : Plan.make config preview with
  | error e =>
    have hrun : Setup.run net config preview = { outcome := .error e } := Setup.run_of_rejected hm
    have ho : (Setup.run net config preview).outcome = .error e := by rw [hrun]
    rw [connect_of_error ho]
    refine .error ho fun proxy hp => ?_
    rw [hrun] at hp
    cases hp
  | ok plan =>
    have hcourse : Setup.Course net config.participants plan (Setup.run net config preview) :=
      Setup.course_of_run hm
    have hleft := hcourse.all_or_nothing hm
    rcases ho : (Setup.run net config preview).outcome with e | ⟨plan', connections⟩
    · rw [ho] at hleft
      rw [connect_of_error ho]
      exact .error ho hleft
    · rw [ho] at hleft
      rw [connect_of_ok ho]
      rcases ofPlan_cases config plan' connections with ⟨hfits, s, hs⟩ | ⟨hfits, hs⟩
      · rw [hs]
        obtain ⟨hproxies, hlive⟩ := hleft.client hs
        exact .client hleft hfits hproxies hlive
      · rw [hs]
        exact .fault hleft hfits

/-- Setting a cluster up, whatever the configuration, the host and the participants are like. It ends
with a coordinator of participants that are all connected and told, or with an error and no connection
open, unless memory cannot hold the window: that is found out only after everybody was told. If a check
fails nobody is contacted; otherwise an error is due to one participant, either to its connection,
before anybody is told anything, or to its part of the distribution, after all have connected, or to one
worker after that. Every connection that was made is on record, and whoever is not contacted does not
matter. -/
theorem connect_all_or_nothing (net : Network) (config : ClusterConfig) (preview : Preview) :
    let s := Setup.run net config preview
    let result := connect net config preview
    Attempt net config preview result ∧
    (Plan.Rejected config preview → s.contacted = 0 ∧ s.opened = [] ∧
      ∃ e, result = .ok (.error e) ∧ ∀ p cause, e ≠ .socket p cause) ∧
    (¬ Plan.Rejected config preview → ∀ e, result = .ok (.error e) →
      (∃ p cause, e = .socket p cause) ∨ ∃ cause, e = .io cause) ∧
    (∀ p cause, result = .ok (.error (.socket p cause)) →
      Setup.FailsToConnect net config s p cause ∨ Setup.FailsToTell net config preview s p cause) ∧
    (∀ cause, result = .ok (.error (.io cause)) → Setup.FailsToLaunch net config preview s cause) ∧
    (∀ p address, config.participants[p]? = some address → p < s.contacted →
      ((∃ peer, net.reach p address = .ok peer) ↔ p < s.opened.length)) ∧
    ∀ net' : Network, net.Agrees net' config.participants s.contacted →
      Setup.run net' config preview = s ∧ connect net' config preview = result := by
  intro s result
  have hattempt : Attempt net config preview result := attempt_of_connect net config preview
  have houtcome : ∀ e, result = .ok (.error e) → s.outcome = .error e := by
    intro e he
    rw [he] at hattempt
    cases hattempt with
    | error ho _ => exact ho
  have hcongr : ∀ net' : Network, net.Agrees net' config.participants s.contacted →
      Setup.run net' config preview = s ∧ connect net' config preview = result := by
    intro net' h
    have hrun : Setup.run net' config preview = s := Setup.run_congr config preview h
    refine ⟨hrun, ?_⟩
    rw [connect, hrun]
    rfl
  by_cases hrejected : Plan.Rejected config preview
  · obtain ⟨e, hm⟩ := (Plan.make_error_iff config preview).2 hrejected
    obtain ⟨-, hsocket, hio⟩ := Plan.rejected_of_make hm
    have hrun : s = { outcome := .error e } := Setup.run_of_rejected hm
    have hresult : result = .ok (.error e) := connect_of_error (congrArg Setup.outcome hrun)
    refine ⟨hattempt, fun _ => ⟨?_, ?_, e, hresult, hsocket⟩, fun hno => absurd hrejected hno,
      fun p cause h => ?_, fun cause h => ?_, fun p address _ hp => ?_, hcongr⟩
    · rw [hrun]
    · rw [hrun]
    · cases hresult.symm.trans h
      exact absurd rfl (hsocket p cause)
    · cases hresult.symm.trans h
      exact absurd rfl (hio cause)
    · rw [hrun] at hp
      cases hp
  · obtain ⟨plan, hm⟩ : ∃ plan, Plan.make config preview = .ok plan := by
      rcases hm : Plan.make config preview with e | plan
      · exact absurd ((Plan.make_error_iff config preview).1 ⟨e, hm⟩) hrejected
      · exact ⟨plan, rfl⟩
    have hcourse : Setup.Course net config.participants plan s := Setup.course_of_run hm
    exact ⟨hattempt, fun h => absurd h hrejected, fun _ e he => hcourse.cause_of_error (houtcome e he),
      fun p cause he => hcourse.fails hm (houtcome _ he),
      fun cause he => hcourse.failsToLaunch hm (houtcome _ he),
      fun p a ha hp => hcourse.reach_iff ha hp, hcongr⟩

/-- A window of the largest sides that can be sent is accepted and told to the participant; there is
neither a coordinator nor an error then. -/
theorem connect_all_or_nothing_unheld :
    let net := Network.ofPeers [.ofRenderer (FlatRenderer.renderer ⟨⟨1, 1, 1, 1⟩, false⟩) ()]
    let config : ClusterConfig :=
      { participants := [⟨"a", 1⟩], width := 2147483647, height := 2147483647 }
    let preview : Preview := { volume := { dims := ⟨1, 1, 1⟩ }, capabilities := [.distributed] }
    ¬ Plan.Rejected config preview ∧
      (∃ plan connections,
        Setup.Complete net config preview (Setup.run net config preview) plan connections) ∧
      connect net config preview = .error .capacity := by
  intro net config preview
  have hok : (Setup.run net config preview).outcome.toOption.isSome := by decide +kernel
  obtain ⟨⟨plan, connections⟩, hsome⟩ := Option.isSome_iff_exists.1 hok
  have ho := ok_of_toOption hsome
  have hunheld : ¬ config.Holds := by decide
  have hattempt := attempt_of_connect net config preview
  generalize connect net config preview = result at hattempt ⊢
  cases hattempt with
  | client _ hholds => exact absurd hholds hunheld
  | error he => cases ho.symm.trans he
  | fault hcomplete =>
    exact ⟨Plan.not_rejected_of_make hcomplete.made, ⟨_, _, hcomplete⟩, rfl⟩

end System
end SortLast
