import DmaBurst.Queue.Basic

namespace DmaBurst

def capitalized (s : String) : String :=
  String.ofList (match s.toList with
    | [] => []
    | c :: cs => c.toUpper :: cs)

def fieldText (field : String × String) : String :=
  field.1 ++ ": " ++ field.2

def recordText (name : String) (fields : List String) : String :=
  name ++ " \x7b " ++ ", ".intercalate fields ++ " \x7d"

def QueueId.inspect (q : QueueId) : String :=
  recordText "QueueId" ([("direction", capitalized q.direction.text),
    ("index", toString q.index)].map fieldText)

def QueueStats.inspect (s : QueueStats) : String :=
  recordText "QueueStats" ([("acquires", s.acquires), ("releases", s.releases),
    ("empty_acquires", s.emptyAcquires), ("short_acquires", s.shortAcquires),
    ("packets", s.packets), ("bytes", s.bytes)].map fun (name, n) => fieldText (name, toString n))

/-- A queue shows its identity, state and statistics; the channel is left out. -/
def Queue.inspect (q : Queue) : String :=
  recordText "Queue" ([("id", q.id.inspect), ("state", capitalized q.state.text),
    ("stats", q.stats.inspect)].map fieldText ++ [".."])

def Packet.inspect (p : Packet) : String :=
  recordText "Packet" ([("data_length", p.data.length), ("header_length", p.header.length),
    ("flags", p.flags.toNat)].map fun (name, n) => fieldText (name, toString n))

end DmaBurst
