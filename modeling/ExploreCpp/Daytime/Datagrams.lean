import ExploreCpp.Daytime.Connections

/-! Whom the daytime server sends its datagrams to.

`remote_endpoint_` is one variable that every receive writes to. It still names the sender
when the callback is called, as there is never a second receive outstanding: each datagram
is answered once and to its sender (`datagrams_answered`). -/
namespace ExploreCpp.Daytime

/-- A datagram that has come, whose callback is to be called. -/
def isRequest (a : Op × Result) : Bool := decide (a.1 = .receive) && decide (a.2.ec = 0)

/-- The sender of the datagram that has not been answered, if there is one. -/
def unanswered (s : State) : List Endpoint := List.replicate (s.loop.ready.countP isRequest) s.remoteEndpoint

/-- Nothing has come in and nothing has been replied. -/
structure Undisturbed (s s' : State) : Prop where
  requests : s'.loop.ready.countP isRequest = s.loop.ready.countP isRequest
  remoteEndpoint : s'.remoteEndpoint = s.remoteEndpoint
  arrived : s'.arrived = s.arrived
  replies : s'.replies = s.replies

section
variable {s s' s'' : State}

theorem Undisturbed.refl (s : State) : Undisturbed s s := ⟨rfl, rfl, rfl, rfl⟩

theorem Undisturbed.trans (h : Undisturbed s s') (h' : Undisturbed s' s'') : Undisturbed s s'' :=
  ⟨h'.requests.trans h.requests, h'.remoteEndpoint.trans h.remoteEndpoint, h'.arrived.trans h.arrived,
    h'.replies.trans h.replies⟩

theorem Undisturbed.answered (h : Undisturbed s s') (ha : s.arrived = s.replies ++ unanswered s) :
    s'.arrived = s'.replies ++ unanswered s' := by
  rw [unanswered, h.arrived, h.replies, h.requests, h.remoteEndpoint]
  exact ha

/-- There never is a second receive outstanding. -/
theorem Serves.requests {captures : Bool} (h : Serves captures s) :
    s.loop.ready.countP isRequest + s.loop.pending.count .receive ≤ 1 := by
  rw [← h.counted.receives]
  apply Callbacks.countP_le
  intro a ha
  have hboth : a.1 = .receive ∧ a.2.ec = 0 := by simpa [isRequest] using ha
  exact hboth.1

end

end ExploreCpp.Daytime
