/-!
# Parley.Metrics — counters of one client or server

Eleven 64-bit counters and the entries that move them.  A counter wraps around at `2 ^ 64`; the
gauge of open connections alone stops at zero when something is closed that was not counted.
-/

namespace Parley

/-- The counters. -/
structure Metrics where
  connectionsTotal : UInt64 := 0
  connectionsActive : UInt64 := 0
  connectionsRejected : UInt64 := 0
  handshakesTotal : UInt64 := 0
  handshakesSuccess : UInt64 := 0
  handshakesFailed : UInt64 := 0
  messagesSent : UInt64 := 0
  messagesReceived : UInt64 := 0
  bytesSent : UInt64 := 0
  bytesReceived : UInt64 := 0
  connectionErrors : UInt64 := 0
  deriving DecidableEq, Repr, Inhabited

namespace Metrics

/-- Something that is counted. -/
inductive Entry where
  | established | closed | rejected
  | attempted | succeeded | failed
  /-- A message was written; header included, it takes so many bytes. -/
  | sent (bytes : UInt64)
  /-- A message was read; header included, it takes so many bytes. -/
  | received (bytes : UInt64)
  | errored
  deriving DecidableEq, Repr

/-- The counters after one more entry. -/
def record (m : Metrics) : Entry → Metrics
  | .established =>
    { m with
      connectionsTotal := m.connectionsTotal + 1
      connectionsActive := m.connectionsActive + 1 }
  | .closed =>
    { m with connectionsActive := if m.connectionsActive = 0 then 0 else m.connectionsActive - 1 }
  | .rejected => { m with connectionsRejected := m.connectionsRejected + 1 }
  | .attempted => { m with handshakesTotal := m.handshakesTotal + 1 }
  | .succeeded => { m with handshakesSuccess := m.handshakesSuccess + 1 }
  | .failed => { m with handshakesFailed := m.handshakesFailed + 1 }
  | .sent n => { m with messagesSent := m.messagesSent + 1, bytesSent := m.bytesSent + n }
  | .received n =>
    { m with messagesReceived := m.messagesReceived + 1, bytesReceived := m.bytesReceived + n }
  | .errored => { m with connectionErrors := m.connectionErrors + 1 }

/-- The counters after a list of entries. -/
def recordAll (m : Metrics) (es : List Entry) : Metrics := es.foldl record m

theorem recordAll_append (m : Metrics) (es fs : List Entry) :
    m.recordAll (es ++ fs) = (m.recordAll es).recordAll fs := by
  simp [recordAll]

/-- The counters with the names under which they are reported. -/
def fields (m : Metrics) : List (String × UInt64) :=
  [("connections_total", m.connectionsTotal), ("connections_active", m.connectionsActive),
    ("connections_rejected", m.connectionsRejected), ("handshakes_total", m.handshakesTotal),
    ("handshakes_success", m.handshakesSuccess), ("handshakes_failed", m.handshakesFailed),
    ("messages_sent", m.messagesSent), ("messages_received", m.messagesReceived),
    ("bytes_sent", m.bytesSent), ("bytes_received", m.bytesReceived),
    ("connection_errors", m.connectionErrors)]

/-- A log line: its level, its text and its fields. -/
structure LogLine where
  level : String
  text : String
  fields : List (String × String)
  deriving DecidableEq, Repr

/-- The log line that reports the counters. -/
def logLine (m : Metrics) : LogLine where
  level := "INFO"
  text := "Transport metrics snapshot"
  fields := m.fields.map fun (name, value) => (name, toString value.toNat)

end Metrics
end Parley
