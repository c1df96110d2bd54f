import Infrared.Proofs.Device.Log

namespace Infrared.Device

variable {ω : Type}

namespace View.Speaks

variable {v : View (Traced ω)} {connection : Connection} {op : Operation ω} {entries : List Entry}

theorem served (h : v.Speaks connection op entries) : v.session.connection? = some connection := by
  cases h with
  | first hv hpending hdrives => rw [hv]; rfl
  | next hv => rw [hv]; rfl

theorem not_moves (h : v.Speaks connection op entries) : ¬op.Moves v.session := by
  cases h with
  | first hv hpending hdrives => exact id
  | next hv => exact id

theorem ne_connect (h : v.Speaks connection op entries) (other : Connection) :
    op ≠ .handle (.connect other) := by
  rintro rfl
  exact h.not_moves trivial

theorem not_on (h : v.Speaks connection op entries) :
    ∀ entry ∈ entries, ∀ connection, ¬entry.call.On connection := by
  cases h with
  | first hv hpending hdrives => exact fun entry hentry => Call.not_on_of_drives (hdrives entry hentry)
  | next hv => simp

/-- Nothing is closed before a piece was sent. -/
theorem ne_close_of_mem (h : v.Speaks connection op entries) {data : List UInt8} {taken : Bool}
    {entry : Entry} (hentry : entry ∈ entries ++ [⟨.send connection data, taken⟩])
    (other : Connection) : entry.call ≠ .close other := by
  rcases List.mem_append.mp hentry with hentry | hentry
  · exact Call.ne_close_of_not_on (h.not_on entry hentry other)
  · simp [List.mem_singleton.mp hentry]

end View.Speaks

/-- Whether what a session waits for goes with a log: it serves the connection that is open, and unless it awaits
a confirmation all was confirmed. -/
structure Accounts (log : List (Moment ω)) (s : Session.View) : Prop where
  opened_iff : ∀ connection, s.connection? = some connection ↔ Opened connection log
  confirmed : ∀ connection, (s.connection? = some connection → s.label ≠ "Response") →
    Confirmed connection log

theorem accounts_nil : Accounts ([] : List (Moment ω)) .ready :=
  ⟨fun connection => by simp [Session.View.connection?, not_opened_nil], fun connection _ =>
    confirmed_nil connection⟩

namespace Accounts

variable {log : List (Moment ω)} {s s' : Session.View} {connection : Connection}
  {op : Operation ω} {entries : List Entry}

theorem goesOn (h : Accounts log s) (hconnection : s'.connection? = s.connection?)
    (hlabel : s.label = "Response" → s'.label = "Response") (hop : ¬op.Moves s)
    (hcloses : ∀ entry ∈ entries, ∀ connection, entry.call ≠ .close connection)
    (hsends : ∀ connection data, (⟨.send connection data, true⟩ : Entry) ∈ entries →
      s'.connection? = some connection ∧ s'.label = "Response") :
    Accounts (log ++ moments op entries) s' := by
  have hopens (connection : Connection) : ∀ m ∈ moments op entries, ¬m.Opens connection := by
    apply not_opens_of_mem_moments
    rintro connection rfl
    exact hop trivial
  refine ⟨fun connection => ?_, fun connection hunanswered => ?_⟩
  · rw [hconnection, opened_append (hopens connection), ← h.opened_iff]
    refine ⟨fun hserved => ⟨hserved, ?_⟩, fun hboth => hboth.1⟩
    exact not_severs_of_mem_moments hop hserved fun entry hentry => hcloses entry hentry connection
  · refine confirmed_append (h.confirmed connection fun hserved hresponse => ?_) fun data hsend => ?_
    · exact hunanswered (hconnection.trans hserved) (hlabel hresponse)
    · obtain ⟨hserved, hresponse⟩ := hsends connection data (send_mem_moments.mp hsend)
      exact hunanswered hserved hresponse

theorem goesOn_of_not_on (h : Accounts log s) (hconnection : s'.connection? = s.connection?)
    (hlabel : s.label = "Response" → s'.label = "Response") (hop : ¬op.Moves s)
    (hentries : ∀ entry ∈ entries, ∀ connection, ¬entry.call.On connection) :
    Accounts (log ++ moments op entries) s' := by
  refine h.goesOn hconnection hlabel hop ?_ ?_
  · exact fun entry hentry connection => Call.ne_close_of_not_on (hentries entry hentry connection)
  · intro connection data hsend
    exact absurd rfl (hentries _ hsend connection)

theorem ended (h : Accounts log s) (hserved : s.connection? = some connection)
    (hop : ∀ connection, op ≠ .handle (.connect connection))
    (hsevers : ∃ m ∈ moments op entries, m.Severs connection)
    (hsends : ∀ entry ∈ entries, ∀ sending, entry.sending? = some sending → sending.taken = false) :
    Accounts (log ++ moments op entries) .ready := by
  obtain ⟨m, hm, hsever⟩ := hsevers
  refine ⟨fun other => ?_, fun other _ => ?_⟩
  · rw [opened_append (not_opens_of_mem_moments hop), ← h.opened_iff]
    constructor
    · intro hready
      simp [Session.View.connection?] at hready
    · rintro ⟨hother, hnone⟩
      rw [hserved, Option.some.injEq] at hother
      subst hother
      exact absurd hsever (hnone m hm)
  · have hnone (data : List UInt8) :
        .call ⟨.send other data, true⟩ ∉ (moments op entries : List (Moment ω)) :=
      fun hsend => by simpa using hsends _ (send_mem_moments.mp hsend) _ rfl
    by_cases hother : other = connection
    · subst hother
      obtain ⟨before, after, hsplit⟩ := List.append_of_mem hm
      rw [hsplit] at hnone ⊢
      rw [show log ++ (before ++ m :: after) = log ++ before ++ [m] ++ after by simp]
      refine confirmed_append (confirmed_concat_of_severs (.inl hsever)) fun data hsend => ?_
      exact hnone data (by simp [hsend])
    · refine confirmed_append (h.confirmed other fun hserved' => ?_) hnone
      rw [hserved, Option.some.injEq] at hserved'
      exact absurd hserved'.symm hother

theorem turnedAway (h : Accounts log s) (hother : s.connection? ≠ some connection) :
    Accounts (log ++ moments (.handle (.connect connection)) [⟨.close connection, ()⟩]) s := by
  refine ⟨fun other => ?_, fun other hunanswered => ?_⟩
  · have hclose : ¬(Moment.call ⟨.close connection, ()⟩ : Moment ω).Opens other := by
      simp [Moment.Opens]
    have hopens : (Moment.operation (.handle (.connect connection)) : Moment ω).Opens other ↔
        connection = other := by
      simp [Moment.Opens]
    rw [moments, List.map_singleton, ← List.singleton_append, ← List.append_assoc, opened_concat,
      opened_concat, ← h.opened_iff, hopens]
    constructor
    · intro hserved
      refine .inr ⟨.inr ⟨hserved, id⟩, fun hsevers => ?_⟩
      exact hother (hserved.trans (congrArg some hsevers).symm)
    · rintro (hopened | ⟨heq | ⟨hserved, -⟩, hsevers⟩)
      · exact absurd hopened hclose
      · exact absurd heq hsevers
      · exact hserved
  · refine confirmed_append (h.confirmed other hunanswered) fun data hsend => ?_
    rw [send_mem_moments, List.mem_singleton] at hsend
    cases hsend

theorem tookUp (h : Accounts log .ready) (connection : Connection) :
    Accounts (log ++ moments (.handle (.connect connection)) []) (.request connection []) := by
  refine ⟨fun other => ?_, fun other hunanswered => ?_⟩
  · have hclosed : ¬Opened other log := by
      rw [← h.opened_iff]
      simp [Session.View.connection?]
    rw [moments, List.map_nil, opened_concat]
    simp [hclosed, Moment.Opens, Session.View.connection?]
  · refine confirmed_append (h.confirmed other fun hready => ?_) (by simp [moments])
    simp [Session.View.connection?] at hready

/-- The log of one operation goes with what becomes of the session. -/
theorem effect {v : View (Traced ω)} (h : Accounts log v.session) (heffect : v.Effect op entries s)
    (hcourteous : ∀ connection, op = .handle (.connect connection) →
      v.session.connection? ≠ some connection) : Accounts (log ++ moments op entries) s := by
  cases heffect with
  | stays hidle hminor =>
      exact h.goesOn_of_not_on rfl id hidle fun entry hentry => Call.not_on_of_minor (hminor entry hentry)
  | turnedAway hbusy => exact h.turnedAway (hcourteous _ rfl)
  | tookUp hrunning hready =>
      rw [hready] at h
      exact h.tookUp _
  | read hv hnext =>
      refine h.goesOn_of_not_on ?_ ?_ id (by simp)
      · rw [hv]
        rcases hnext with ⟨more, rfl⟩ | ⟨request, kept, rfl⟩
        · rfl
        · rfl
      · intro hresponse
        simp [hv, Session.View.label] at hresponse
  | dropped hv =>
      refine h.ended (by rw [hv]; rfl) (by simp) ⟨.call ⟨.close _, ()⟩, by simp [moments], rfl⟩ ?_
      simp [Entry.sending?]
  | waits hv hpending hcalls =>
      exact h.goesOn_of_not_on rfl id id (not_on_of_armCapture hcalls)
  | recorded hv hminor =>
      refine h.goesOn_of_not_on (by rw [hv]; rfl) ?_ id fun entry hentry => ?_
      · intro hresponse
        simp [hv, Session.View.label] at hresponse
      · exact Call.not_on_of_minor (hminor entry hentry)
  | replied hspeaks hsome hlength =>
      refine h.goesOn hspeaks.served.symm (fun _ => rfl) hspeaks.not_moves ?_ ?_
      · exact fun entry hentry => hspeaks.ne_close_of_mem hentry
      · intro connection data hsend
        rcases List.mem_append.mp hsend with hsend | hsend
        · exact absurd rfl (hspeaks.not_on _ hsend connection)
        · cases List.mem_singleton.mp hsend
          exact ⟨rfl, rfl⟩
  | cut hspeaks hsome hlength =>
      refine h.ended hspeaks.served hspeaks.ne_connect ⟨.call ⟨.close _, ()⟩, ?_, rfl⟩ ?_
      · simp [moments]
      · intro entry hentry
        rcases List.mem_append.mp hentry with hentry | hentry
        · simp [sending?_eq_none_of_not_on (hspeaks.not_on entry hentry)]
        · simp only [List.mem_cons, List.not_mem_nil, or_false] at hentry
          rcases hentry with rfl | rfl | rfl
          · simp [Entry.sending?]
          · simp [Entry.sending?]
          · simp [Entry.sending?]
  | finished hv htold =>
      refine h.ended (by rw [hv]; rfl) (by simp) ⟨.call ⟨.close _, ()⟩, by simp [moments], rfl⟩ ?_
      intro entry hentry
      rcases List.mem_append.mp hentry with hentry | hentry
      · simp [sending?_eq_none_of_not_on (Call.not_on_of_configured (htold entry hentry))]
      · simp only [List.mem_cons, List.not_mem_nil, or_false] at hentry
        rcases hentry with rfl | rfl
        · simp [Entry.sending?]
        · simp [Entry.sending?]
  | left hserved =>
      exact h.ended hserved (by simp) ⟨.operation _, List.mem_cons_self, rfl⟩ (by simp [Entry.sending?])
  | stopped hserved =>
      refine h.ended hserved (by simp) ⟨.call ⟨.close _, ()⟩, by simp [moments], rfl⟩ ?_
      simp [Entry.sending?]

variable {v : View (Traced ω)} {limit : Nat} {rest : List (Moment ω)}

theorem opened_moments (h : Accounts log s) (hserved : s.connection? = some connection)
    (hop : ¬op.Moves s) (hentries : ∀ entry ∈ entries, ∀ connection, ¬entry.call.On connection) :
    Opened connection (log ++ moments op entries) := by
  rw [opened_append, ← h.opened_iff]
  · refine ⟨hserved, not_severs_of_mem_moments hop hserved fun entry hentry => ?_⟩
    exact Call.ne_close_of_not_on (hentries entry hentry connection)
  · apply not_opens_of_mem_moments
    rintro connection rfl
    exact hop trivial

/-- When the next piece of a reply is sent, all before it were confirmed. -/
theorem confirmed_speaks (h : Accounts log v.session) (hspeaks : v.Speaks connection op entries) :
    Confirmed connection (log ++ moments op entries) := by
  have hnot := hspeaks.not_on
  cases hspeaks with
  | first hv hpending hdrives =>
      refine confirmed_append (h.confirmed connection fun _ => ?_) fun data hsend => ?_
      · simp [hv, Session.View.label]
      · exact absurd rfl (hnot _ (send_mem_moments.mp hsend) connection)
  | next hv => exact confirmed_concat_of_severs (.inr rfl)

theorem lawful_map {before : List (Moment ω)}
    (hentries : ∀ entry ∈ entries, ∀ connection, ¬entry.call.On connection)
    (hrest : Lawful limit (before ++ entries.map .call) rest) :
    Lawful limit before (entries.map .call ++ rest) := by
  refine lawful_append (fun m hm => ?_) hrest
  obtain ⟨entry, hentry, rfl⟩ := List.mem_map.mp hm
  exact hentries entry hentry

theorem lawful_close (h : Accounts log s) (hserved : s.connection? = some connection)
    (hop : ¬op.Moves s) (told : List Entry) {more : List Entry}
    (htold : ∀ entry ∈ told, ∀ connection, ¬entry.call.On connection)
    (hmore : ∀ entry ∈ more, ∀ connection, ¬entry.call.On connection)
    (hrest : Lawful limit (log ++ moments op (told ++ ⟨.close connection, ()⟩ :: more)) rest) :
    Lawful limit log (moments op (told ++ ⟨.close connection, ()⟩ :: more) ++ rest) := by
  rw [moments_append, List.map_cons] at hrest ⊢
  rw [List.append_assoc, List.cons_append]
  refine lawful_append (not_on_of_mem_moments htold) (lawful_cons ?_ (lawful_map hmore ?_))
  · exact h.opened_moments hserved hop htold
  · simpa only [List.append_assoc, List.cons_append, List.nil_append] using hrest

theorem lawful_send (h : Accounts log v.session) (hspeaks : v.Speaks connection op entries)
    {data : List UInt8} (hsome : data ≠ []) (hlength : data.length ≤ limit) {taken : Bool}
    {more : List Entry}
    (hrefused : taken = false → ∃ further, more = ⟨.close connection, ()⟩ :: further)
    (hrest : Lawful limit (log ++ moments op (entries ++ [⟨.send connection data, taken⟩]))
      (more.map .call ++ rest)) :
    Lawful limit log (moments op (entries ++ ⟨.send connection data, taken⟩ :: more) ++ rest) := by
  rw [moments_append, List.map_singleton, ← List.append_assoc] at hrest
  rw [moments_append, List.map_cons, List.append_assoc, List.cons_append]
  refine lawful_append (not_on_of_mem_moments hspeaks.not_on) (lawful_cons ?_ hrest)
  refine ⟨h.opened_moments hspeaks.served hspeaks.not_moves hspeaks.not_on,
    h.confirmed_speaks hspeaks, List.length_pos_iff.mpr hsome, hlength, fun hfalse => ?_⟩
  obtain ⟨further, rfl⟩ := hrefused hfalse
  exact ⟨_, rfl⟩

/-- Whatever one operation calls is allowed. -/
theorem lawful (h : Accounts log v.session) (heffect : v.Effect op entries s)
    (hrest : Lawful v.config.sendBufferLength (log ++ moments op entries) rest) :
    Lawful v.config.sendBufferLength log (moments op entries ++ rest) := by
  cases heffect with
  | stays hidle hminor =>
      exact lawful_append (not_on_of_mem_moments fun entry hentry =>
        Call.not_on_of_minor (hminor entry hentry)) hrest
  | turnedAway hbusy =>
      refine lawful_cons trivial (lawful_cons (opened_concat.mpr (.inl rfl)) ?_)
      rwa [List.append_assoc]
  | tookUp hrunning hready => exact lawful_cons trivial hrest
  | read hv hnext => exact lawful_cons trivial hrest
  | dropped hv => exact h.lawful_close (by rw [hv]; rfl) id [] (by simp) (by simp [Call.On]) hrest
  | waits hv hpending hcalls =>
      exact lawful_append (not_on_of_mem_moments (not_on_of_armCapture hcalls)) hrest
  | recorded hv hminor =>
      exact lawful_append (not_on_of_mem_moments fun entry hentry =>
        Call.not_on_of_minor (hminor entry hentry)) hrest
  | replied hspeaks hsome hlength => exact h.lawful_send hspeaks hsome hlength (by simp) hrest
  | @cut op connection data entries hspeaks hsome hlength =>
      refine h.lawful_send hspeaks hsome hlength (fun _ => ⟨_, rfl⟩) ?_
      have hopened : Opened connection
          (log ++ moments op (entries ++ [⟨.send connection data, false⟩])) := by
        rw [moments_append, List.map_singleton, ← List.append_assoc, opened_concat]
        exact .inr ⟨h.opened_moments hspeaks.served hspeaks.not_moves hspeaks.not_on, id⟩
      simp only [List.map_cons, List.map_nil, List.cons_append, List.nil_append]
      refine lawful_cons hopened (lawful_cons trivial ?_)
      rw [moments_append] at hrest ⊢
      simpa only [List.append_assoc, List.map_cons, List.map_nil, List.cons_append, List.nil_append]
        using hrest
  | finished hv htold =>
      exact h.lawful_close (by rw [hv]; rfl) id _
        (fun entry hentry => Call.not_on_of_configured (htold entry hentry)) (by simp [Call.On]) hrest
  | left hserved => exact lawful_append (not_on_of_mem_moments (by simp [Call.On])) hrest
  | stopped hserved => exact h.lawful_close hserved id [] (by simp) (by simp [Call.On]) hrest

end Accounts

namespace View.Effect

variable {v : View (Traced ω)} {op : Operation ω} {entries : List Entry} {s : Session.View}
  {connection : Connection}

theorem served_of_send (h : v.Effect op entries s) {data : List UInt8} {taken : Bool}
    (hsend : (⟨.send connection data, taken⟩ : Entry) ∈ entries) :
    v.session.connection? = some connection := by
  have hcall : Call.send connection data ∈ entries.map (·.call) := List.mem_map_of_mem hsend
  cases h with
  | stays hidle hminor => exact absurd rfl (Call.not_on_of_minor (hminor _ hsend) connection)
  | recorded hv hminor => exact absurd rfl (Call.not_on_of_minor (hminor _ hsend) connection)
  | waits hv hpending hcalls => exact absurd rfl (not_on_of_armCapture hcalls _ hsend connection)
  | replied hspeaks hsome hlength =>
      rcases List.mem_append.mp hsend with hsend | hsend
      · exact absurd rfl (hspeaks.not_on _ hsend connection)
      · cases List.mem_singleton.mp hsend
        exact hspeaks.served
  | cut hspeaks hsome hlength =>
      rcases List.mem_append.mp hsend with hsend | hsend
      · exact absurd rfl (hspeaks.not_on _ hsend connection)
      · have hcall := List.mem_map_of_mem (f := fun entry : Entry => entry.call) hsend
        simp only [List.map_cons, List.map_nil, List.mem_cons, Call.send.injEq, reduceCtorEq,
          List.not_mem_nil, or_false] at hcall
        rw [hcall.1]
        exact hspeaks.served
  | finished hv htold =>
      rcases List.mem_append.mp hsend with hsend | hsend
      · exact absurd rfl (Call.not_on_of_configured (htold _ hsend) connection)
      · have hcall := List.mem_map_of_mem (f := fun entry : Entry => entry.call) hsend
        simp at hcall
  | _ => simp at hcall

theorem eq_of_connect (h : v.Effect (.handle (.connect connection)) entries s)
    (hbusy : ¬(v.running = true ∧ v.session = .ready)) : entries = [⟨.close connection, ()⟩] := by
  cases h with
  | stays hidle hminor => exact absurd trivial hidle
  | turnedAway _ => rfl
  | tookUp hrunning hready => exact absurd ⟨hrunning, hready⟩ hbusy
  | replied hspeaks hsome hlength => exact absurd rfl (hspeaks.ne_connect connection)
  | cut hspeaks hsome hlength => exact absurd rfl (hspeaks.ne_connect connection)

/-- A conversation ends with the one close of its connection, unless its client ended it. -/
theorem exists_close_of_ended (h : v.Effect op entries s)
    (hserved : v.session.connection? = some connection) (hended : s.connection? ≠ some connection)
    (hop : op ≠ .handle (.disconnect connection)) :
    ∃ before after, entries = before ++ ⟨.close connection, ()⟩ :: after ∧
      (∀ entry ∈ before, entry.call ≠ .close connection) ∧
      ∀ entry ∈ after, ¬entry.call.On connection := by
  cases h with
  | stays hidle hminor => exact absurd hserved hended
  | turnedAway hbusy => exact absurd hserved hended
  | waits hv hpending hcalls => exact absurd hserved hended
  | tookUp hrunning hready => simp [hready, Session.View.connection?] at hserved
  | read hv hnext =>
      rw [hv] at hserved
      rcases hnext with ⟨more, rfl⟩ | ⟨request, kept, rfl⟩
      · exact absurd hserved hended
      · exact absurd hserved hended
  | dropped hv =>
      rw [hv] at hserved
      cases hserved
      exact ⟨[], _, rfl, by simp, by simp [Call.On]⟩
  | recorded hv hminor =>
      rw [hv] at hserved
      exact absurd hserved hended
  | replied hspeaks hsome hlength => exact absurd (hspeaks.served.symm.trans hserved) hended
  | cut hspeaks hsome hlength =>
      cases hspeaks.served.symm.trans hserved
      refine ⟨_ ++ [_], [_], (List.append_assoc _ [_] _).symm, ?_, by simp [Call.On]⟩
      exact fun entry hentry => hspeaks.ne_close_of_mem hentry connection
  | finished hv htold =>
      rw [hv] at hserved
      cases hserved
      refine ⟨_, [_], rfl, ?_, by simp [Call.On]⟩
      intro entry hentry
      exact Call.ne_close_of_not_on (Call.not_on_of_configured (htold entry hentry) connection)
  | left hserved' =>
      cases hserved'.symm.trans hserved
      exact absurd rfl hop
  | stopped hserved' =>
      cases hserved'.symm.trans hserved
      exact ⟨[], _, rfl, by simp, by simp [Call.On]⟩

theorem of_disconnect (h : v.Effect (.handle (.disconnect connection)) entries s)
    (hserved : v.session.connection? = some connection) :
    s = .ready ∧ ∀ entry ∈ entries, ¬entry.call.On connection := by
  cases h with
  | stays hidle hminor => exact absurd hserved hidle
  | replied hspeaks hsome hlength => exact absurd hserved hspeaks.not_moves
  | cut hspeaks hsome hlength => exact absurd hserved hspeaks.not_moves
  | left _ => exact ⟨rfl, by simp [Call.On]⟩

theorem ne_close_of_lasts (h : v.Effect op entries s) (hlasts : s.connection? = some connection)
    (hop : op ≠ .handle (.connect connection)) :
    ∀ entry ∈ entries, entry.call ≠ .close connection := by
  have hplain {told : List Entry} (htold : ∀ entry ∈ told, ∀ connection, ¬entry.call.On connection)
      (entry : Entry) (hentry : entry ∈ told) : entry.call ≠ .close connection :=
    Call.ne_close_of_not_on (htold entry hentry connection)
  cases h with
  | stays hidle hminor => exact hplain fun entry hentry => Call.not_on_of_minor (hminor entry hentry)
  | recorded hv hminor => exact hplain fun entry hentry => Call.not_on_of_minor (hminor entry hentry)
  | waits hv hpending hcalls => exact hplain (not_on_of_armCapture hcalls)
  | @turnedAway other hbusy =>
      have hother : other ≠ connection := fun heq => hop (by rw [heq])
      simpa using hother
  | replied hspeaks hsome hlength =>
      exact fun entry hentry => hspeaks.ne_close_of_mem hentry connection
  | tookUp hrunning hready => simp
  | read hv hnext => simp
  | _ => simp [Session.View.connection?] at hlasts

end View.Effect

section Runs

variable [Platform ω]

/-- Everything that happens in a run. -/
def log (d : Device (Traced ω)) : List (Operation ω) → List (Moment ω)
  | [] => []
  | op :: ops => moments op (d.added op) ++ log (d.perform op).2 ops

/-- Whether no connection is offered in a run that is the one being served. -/
def Courteous (d : Device (Traced ω)) : List (Operation ω) → Prop
  | [] => True
  | op :: ops =>
    (∀ connection, op = .handle (.connect connection) → d.session.connection? ≠ some connection) ∧
      Courteous (d.perform op).2 ops

/-- What one operation calls for the conversation that is going on, and for a connection that it refuses. -/
structure Orderly (d : Device (Traced ω)) (op : Operation ω) : Prop where
  sends : ∀ connection data taken, (⟨.send connection data, taken⟩ : Entry) ∈ d.added op →
    d.session.connection? = some connection
  refuses : ∀ connection, op = .handle (.connect connection) →
    d.running = false ∨ d.session.isAttached = true → d.added op = [⟨.close connection, ()⟩]
  ends : ∀ connection, d.session.connection? = some connection →
    (d.perform op).2.session.connection? ≠ some connection →
      op ≠ .handle (.disconnect connection) →
        ∃ before after, d.added op = before ++ ⟨.close connection, ()⟩ :: after ∧
          (∀ entry ∈ before, entry.call ≠ .close connection) ∧
          ∀ entry ∈ after, ¬entry.call.On connection
  leaves : ∀ connection, d.session.connection? = some connection →
    op = .handle (.disconnect connection) →
      (d.perform op).2.session.connection? ≠ some connection ∧
        ∀ entry ∈ d.added op, ¬entry.call.On connection
  lasts : ∀ connection, d.session.connection? = some connection →
    (d.perform op).2.session.connection? = some connection →
      op ≠ .handle (.connect connection) → ∀ entry ∈ d.added op, entry.call ≠ .close connection

variable {d : Device (Traced ω)} {v : View (Traced ω)} {op : Operation ω} {ops : List (Operation ω)}

theorem Follows.orderly (h : d.Follows v) (op : Operation ω) : d.Orderly op := by
  obtain ⟨-, heffect⟩ := h.effect op
  have hserved := h.shows.session_shows.connection?_eq
  have hnext := (h.perform op).2.shows.session_shows.connection?_eq
  refine ⟨?_, ?_, ?_, ?_, ?_⟩
  · intro connection data taken hsend
    rw [hserved]
    exact heffect.served_of_send hsend
  · rintro connection rfl hrefused
    refine heffect.eq_of_connect ?_
    rintro ⟨hrunning, hready⟩
    rcases hrefused with hstopped | hattached
    · rw [h.shows.running_eq, hrunning] at hstopped
      simp at hstopped
    · rw [hready, Session.connection?] at hserved
      obtain ⟨conversation, hconversation⟩ := Option.isSome_iff_exists.mp hattached
      rw [hconversation] at hserved
      simp [Session.View.connection?] at hserved
  · intro connection
    rw [hserved, hnext]
    exact heffect.exists_close_of_ended
  · rintro connection hcurrent rfl
    rw [hserved] at hcurrent
    obtain ⟨hready, hentries⟩ := heffect.of_disconnect hcurrent
    rw [hnext, hready]
    exact ⟨by simp [Session.View.connection?], hentries⟩
  · intro connection
    rw [hserved, hnext]
    exact fun _ => heffect.ne_close_of_lasts

/-- The log of a run goes with the session that it comes to, and everything in it is allowed. -/
theorem Follows.lawful_log (h : d.Follows v) {before : List (Moment ω)}
    (haccounts : Accounts before v.session) (hcourteous : d.Courteous ops) :
    Accounts (before ++ d.log ops) (v.run ops).2.session ∧
      Lawful v.config.sendBufferLength before (d.log ops) := by
  induction ops generalizing d v before with
  | nil => exact ⟨by rwa [log, List.append_nil], lawful_nil _ _⟩
  | cons op ops ih =>
      obtain ⟨hfirst, hrest⟩ := hcourteous
      rw [h.shows.session_shows.connection?_eq] at hfirst
      have hnext := haccounts.effect (h.effect op).2 hfirst
      obtain ⟨hlast, hlawful⟩ := ih (h.perform op).2 hnext hrest
      rw [v.config_perform op] at hlawful
      refine ⟨?_, haccounts.lawful (h.effect op).2 hlawful⟩
      rwa [log, ← List.append_assoc]

/-- In a run in which no connection is offered that is being served, a piece is sent only on the connection
that is open, when all pieces before it were confirmed, and it is neither empty nor too long; after a piece
that is refused the connection is closed at once, and only an open connection is closed. The open connection
is the one that is served. Whatever operation comes next, it sends on no other connection; a connection that it
refuses it closes; and a conversation that it ends ends with the one close of its connection, or without if its
client is gone. -/
theorem transport_discipline {config : Config} {world : ω}
    (hnew : Device.new config ⟨world, []⟩ = .ok d) (hcourteous : d.Courteous ops) :
    (∀ before m after, d.log ops = before ++ m :: after →
      m.Permitted config.sendBufferLength before after) ∧
    (∀ connection, (d.run ops).2.session.connection? = some connection ↔
      Opened connection (d.log ops)) ∧
    ∀ op, (d.run ops).2.Orderly op := by
  have hfollows := Follows.new hnew
  have hlast := (hfollows.run ops).2
  obtain ⟨haccounts, hlawful⟩ := hfollows.lawful_log accounts_nil hcourteous
  refine ⟨hlawful, fun connection => ?_, hlast.orderly⟩
  rw [hlast.shows.session_shows.connection?_eq]
  exact haccounts.opened_iff connection

/-- One connection is refused while another one is served, and the one piece of the reply is sent. -/
theorem transport_discipline_configured :
    let d : Device (Traced Bench) := fresh {} ⟨{}, []⟩
    let ops : List (Operation Bench) :=
      [.start, .handle (.connect 7), .handle (.receive 7 [4, 0, 6, 1, 65, 1, 66, 1, 67]),
        .handle (.connect 8), .runPending, .handle (.sent 7)]
    (d.run ops).2.board.world.sendings = [⟨7, [5, 0, 0], true⟩] ∧
      (∀ before m after, d.log ops = before ++ m :: after → m.Permitted 1024 before after) ∧
      (∀ connection, (d.run ops).2.session.connection? = some connection ↔
        Opened connection (d.log ops)) ∧
      ∀ op, (d.run ops).2.Orderly op := by
  intro d ops
  have hnew : Device.new {} ⟨{}, []⟩ = .ok d := rfl
  have hcourteous : d.Courteous ops := by
    refine ⟨by simp, ?_, by simp, ?_, by simp, by simp, trivial⟩
    · intro connection heq
      cases heq
      decide +kernel
    · intro connection heq
      cases heq
      decide +kernel
  exact ⟨by decide +kernel, transport_discipline hnew hcourteous⟩

end Runs

end Infrared.Device
