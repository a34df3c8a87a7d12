import Gateway.Network.ConnectionTables

/-!
# What is received, echoed and counted

Every byte received is counted once. The callback does not look at what `send` returns: it
counts the whole chunk as sent, and what the socket did not take is lost. After a teardown
there is nothing to count: the server is in no state.
-/

namespace Gateway.Network
open Steps

/-- The counters of a connection are what `recv` and `send` did for it, and what was echoed
is a beginning of what was received. -/
structure Session.Accounted (x : Session) : Prop where
  received : x.conn.bytesReceived = .ofNat x.received.length
  packets : x.conn.packetsProcessed = .ofNat x.recvs
  sent : x.conn.bytesSent = .ofNat x.echoed.length
  echoed : x.echoed <+: x.received

/-- The counters are right and nothing received is missing from the echo. -/
structure Session.Echoed (x : Session) : Prop extends x.Accounted where
  complete : x.echoed = x.received

theorem Session.onData_record (x : Session) (bytes : Bytes) (send : Send) (now : ℤ) :
    (x.onData bytes send now).received = x.received ++ bytes ∧
    (x.onData bytes send now).recvs = x.recvs + 1 ∧
    (x.onData bytes send now).echoed = x.echoed ++ bytes.take send.count ∧
    (x.onData bytes send now).conn.bytesReceived = x.conn.bytesReceived + .ofNat bytes.length ∧
    (x.onData bytes send now).conn.packetsProcessed = x.conn.packetsProcessed + 1 ∧
    (x.onData bytes send now).conn.bytesSent = x.conn.bytesSent + .ofNat bytes.length := by
  simp only [Session.onData]
  split_ifs <;> exact ⟨rfl, rfl, rfl, rfl, rfl, rfl⟩

theorem Session.Echoed.onData {x : Session} (hx : x.Echoed) {bytes : Bytes} {send : Send}
    (hsend : send.count = bytes.length) (now : ℤ) : (x.onData bytes send now).Echoed := by
  obtain ⟨hreceived, hrecvs, hechoed, hbytesReceived, hpackets, hbytesSent⟩ :=
    x.onData_record bytes send now
  rw [hsend, List.take_length] at hechoed
  have hcomplete : (x.onData bytes send now).echoed = (x.onData bytes send now).received := by
    rw [hechoed, hreceived, hx.complete]
  refine ⟨⟨?_, ?_, ?_, ?_⟩, hcomplete⟩
  · rw [hbytesReceived, hreceived, hx.received, List.length_append, UInt64.ofNat_add]
  · rw [hpackets, hrecvs, hx.packets, UInt64.ofNat_add]
    rfl
  · rw [hbytesSent, hechoed, hx.sent, List.length_append, UInt64.ofNat_add]
  · rw [hcomplete]

/-- A chunk after which the counters are still right was taken whole. -/
theorem Session.Accounted.count_eq {x : Session} (hx : x.Accounted) {bytes : Bytes} {send : Send}
    {now : ℤ} (hafter : (x.onData bytes send now).Accounted) (hlength : bytes.length < 2 ^ 64)
    (hcount : send.count ≤ bytes.length) : send.count = bytes.length := by
  obtain ⟨-, -, hechoed, -, -, hbytesSent⟩ := x.onData_record bytes send now
  have hsent := hafter.sent
  rw [hbytesSent, hechoed, List.length_append, UInt64.ofNat_add, hx.sent,
    List.length_take_of_le hcount] at hsent
  -- the count of what was sent tells the two lengths apart, both being small
  have hequal : UInt64.ofNat bytes.length = UInt64.ofNat send.count :=
    (UInt64.add_right_inj _).mp hsent
  have hnat := congrArg UInt64.toNat hequal
  rw [UInt64.toNat_ofNat_of_lt' hlength,
    UInt64.toNat_ofNat_of_lt' (lt_of_le_of_lt hcount hlength)] at hnat
  exact hnat.symm

namespace Server

variable {serverFd : ℤ} {s t : Server} {e : Event} {o : Outcome}

/-- The event makes the callback echo these bytes. -/
def Echoes (s : Server) (e : Event) (bytes : Bytes) : Prop :=
  s.callbacks.lookup e.fd = some .client ∧ (s.connMgr.getConnection e.fd).isSome ∧
    (e.epollHup || e.epollErr) = false ∧ e.epollIn = true ∧ e.recv = .data bytes

instance (s : Server) (e : Event) (bytes : Bytes) : Decidable (Echoes s e bytes) :=
  inferInstanceAs (Decidable (_ ∧ _))

/-- `send` takes the whole chunk. -/
def SendsAll (s : Server) (e : Event) : Prop :=
  ∀ bytes, Echoes s e bytes → e.send.count = bytes.length

instance (s : Server) (e : Event) : Decidable (SendsAll s e) :=
  match hrecv : e.recv with
  | .data bytes =>
    decidable_of_iff (Echoes s e bytes → e.send.count = bytes.length) <| by
      refine ⟨fun h bytes' hechoes => ?_, fun h => h bytes⟩
      obtain rfl := Recv.data.inj (hrecv.symm.trans hechoes.2.2.2.2)
      exact h hechoes
  | .endOfFile => isTrue fun _ h => nomatch hrecv.symm.trans h.2.2.2.2
  | .error => isTrue fun _ h => nomatch hrecv.symm.trans h.2.2.2.2

/-- Every connection is counted and echoed in full. -/
def AllEchoed (s : Server) : Prop :=
  ∀ (ptr : ℕ) (x : Session), s.connMgr.objects[ptr]? = some x → x.Echoed

/-- The counters of every connection are those of its `recv` and `send` calls, and what was
echoed is a beginning of what was received. -/
def AllAccounted (s : Server) : Prop :=
  ∀ (ptr : ℕ) (x : Session), s.connMgr.objects[ptr]? = some x → x.Accounted

theorem AllEchoed.accounted (hs : AllEchoed s) : AllAccounted s :=
  fun ptr x hx => (hs ptr x hx).toAccounted

theorem allEchoed_init (serverFd : ℤ) (ctlAdd : Bool) : AllEchoed (init serverFd ctlAdd) := by
  intro ptr x hx
  rw [connMgr_init] at hx
  cases hx

theorem allEchoed_turn (hs : AllEchoed s) (he : SendsAll s e)
    (h : turn serverFd s e = some (.ok t)) : AllEchoed t := by
  cases moves_of_turn h with
  | idle _ _ => exact hs
  | accept _ _ _ _ =>
    intro ptr x hx
    rcases objects_accepted.mp hx with hx | ⟨-, rfl⟩
    · exact hs ptr x hx
    · exact ⟨⟨rfl, rfl, rfl, List.prefix_rfl⟩, rfl⟩
  | @data ptr bytes hcallback hconn hup hin hrecv hbytes =>
    have hsend : e.send.count = bytes.length :=
      he bytes ⟨hcallback, by rw [hconn]; rfl, hup, hin, hrecv⟩
    exact forall_objects_modify hs fun x hx => (hs _ x hx).onData hsend _

/-- A turn that leaves all counters right sent its whole chunk. -/
theorem sendsAll_of_accounted (hs : Linked s) (haccounted : AllAccounted s)
    (h : turn serverFd s e = some (.ok t)) (ht : AllAccounted t) : SendsAll s e := by
  rintro bytes ⟨hcallback, hmanaged, hup, hin, hrecv⟩
  have hpossible : Possible serverFd s e := by
    by_contra hnot
    rw [turn, if_neg hnot] at h
    cases h
  obtain ⟨-, hlength, hcount⟩ : bytes ≠ [] ∧ bytes.length ≤ bufferSize - 1 ∧
      e.send.count ≤ bytes.length := by
    have hposs := hpossible.2
    rw [hrecv] at hposs
    exact hposs
  obtain ⟨ptr, hconn⟩ := Option.isSome_iff_exists.mp hmanaged
  obtain ⟨x, hx, -⟩ := hs.managed e.fd ptr hconn
  -- the callback came to its end, so it echoed the chunk
  have hend : t.connMgr = s.connMgr.modify ptr (·.onData bytes e.send e.now) := by
    have hcalm : ¬ TearsDown s e := (not_tearsDown_iff s e _ h).mpr ⟨t, rfl⟩
    rw [turn, if_pos hpossible, dispatch, hcallback] at h
    dsimp only at h
    rw [onClient_eq hcallback, hconn] at h
    dsimp only at h
    rw [if_neg hcalm, if_pos hin, hrecv, Option.some.injEq, Except.ok.injEq] at h
    rw [← h]
  have hafter : (x.onData bytes e.send e.now).Accounted := by
    apply ht ptr
    rw [hend, objects_modify_self, hx, Option.map_some]
  refine (haccounted ptr x hx).count_eq hafter (lt_of_le_of_lt hlength ?_) hcount
  decide

/-- The counters of every connection are right and its echo is a beginning of what it sent,
after every event of a run, exactly when `send` takes all it is given and no connection is
torn down. -/
theorem echo_accounted {serverFd : ℤ} {ctlAdd : Bool} {events : List Event} {o : Outcome}
    (hrun : exec (step serverFd) (.ok (init serverFd ctlAdd)) events = some o) :
    Meets (step serverFd) (Defined fun s e => SendsAll s e ∧ ¬ TearsDown s e)
        (.ok (init serverFd ctlAdd)) events ↔
      ∀ before p, before <+: events →
        exec (step serverFd) (.ok (init serverFd ctlAdd)) before = some p →
        ∃ s, p = .ok s ∧ ∀ (ptr : ℕ) (x : Session), s.connMgr.objects[ptr]? = some x →
          x.Accounted := by
  refine meets_defined_iff_prefixes (I := fun s => Linked s ∧ AllEchoed s) (P := AllAccounted)
    (fun s hs => hs.2.accounted) ?_ ?_
    ⟨linked_init serverFd ctlAdd, allEchoed_init serverFd ctlAdd⟩ hrun
  · rintro s e o ⟨hlinked, hechoed⟩ h
    constructor
    · rintro ⟨hsends, hcalm⟩
      obtain ⟨t, rfl⟩ := (not_tearsDown_iff s e o h).mp hcalm
      exact ⟨t, rfl, (allEchoed_turn hechoed hsends h).accounted⟩
    · rintro ⟨t, rfl, ht⟩
      exact ⟨sendsAll_of_accounted hlinked hechoed.accounted h ht,
        (not_tearsDown_iff s e _ h).mpr ⟨t, rfl⟩⟩
  · rintro s e t ⟨hlinked, hechoed⟩ ⟨hsends, -⟩ h
    exact ⟨linked_turn hlinked h, allEchoed_turn hechoed hsends h⟩

theorem echo_accounted_clientsTalk :
    ∃ s, exec (step 3) (.ok (init 3 true)) clientsTalk = some (.ok s) ∧
      ∃ x, s.connMgr.objects[0]? = some x ∧ x.received = ascii "hello" ∧ x.Accounted := by
  have hmeets : Meets (step 3) (Defined fun s e => SendsAll s e ∧ ¬ TearsDown s e)
      (.ok (init 3 true)) clientsTalk := by
    decide +kernel
  have hrun : (exec (step 3) (.ok (init 3 true)) clientsTalk).map (fun o =>
      o.toOption.bind fun s => (s.connMgr.objects[0]?).map Session.received) =
      some (some (ascii "hello")) := by
    decide +kernel
  obtain ⟨o, ho, hreceived⟩ := Option.map_eq_some_iff.mp hrun
  obtain ⟨s, rfl, haccounted⟩ := (echo_accounted ho).mp hmeets _ o List.prefix_rfl ho
  obtain ⟨x, hx, hreceived⟩ := Option.map_eq_some_iff.mp hreceived
  exact ⟨s, ho, x, hx, hreceived, haccounted 0 x hx⟩

/-- Of the three bytes that arrive first the socket takes one, of the next byte all. -/
def shortSend : List Event :=
  [{ fd := 3, epollIn := true, accept := some ⟨5, ascii "10.0.0.1", 4001⟩ },
    { fd := 5, epollIn := true, recv := .data (ascii "abc"), send := .accepted 1 },
    { fd := 5, epollIn := true, recv := .data (ascii "d"), send := .accepted 1 }]

/-- Four bytes are counted as sent, two were, and they are no beginning of what arrived. -/
theorem shortSend_miscounted :
    ∃ s, exec (step 3) (.ok (init 3 true)) shortSend = some (.ok s) ∧
      s.connMgr.getConnection 5 = some 0 ∧
      ∃ x, s.connMgr.objects[0]? = some x ∧ x.conn.bytesSent ≠ .ofNat x.echoed.length ∧
        ¬ x.echoed <+: x.received ∧ ¬ x.Accounted := by
  have hrun : (exec (step 3) (.ok (init 3 true)) shortSend).map (fun o =>
      o.toOption.bind fun s => (s.connMgr.objects[0]?).map fun x =>
        (s.connMgr.getConnection 5, x.conn.bytesSent, x.echoed, x.received)) =
      some (some (some 0, 4, ascii "ad", ascii "abcd")) := by
    decide +kernel
  obtain ⟨o, ho, hend⟩ := Option.map_eq_some_iff.mp hrun
  cases o with
  | error u => cases hend
  | ok s =>
    obtain ⟨x, hx, hfields⟩ := Option.map_eq_some_iff.mp hend
    simp only [Prod.mk.injEq] at hfields
    obtain ⟨hconn, hsent, hechoed, hreceived⟩ := hfields
    have hcount : x.conn.bytesSent ≠ .ofNat x.echoed.length := by
      rw [hsent, hechoed]
      decide
    have hprefix : ¬ x.echoed <+: x.received := by
      rw [hechoed, hreceived]
      decide
    exact ⟨s, ho, hconn, x, hx, hcount, hprefix, fun h => hcount h.sent⟩

end Server

end Gateway.Network
