import DmaBurst.Run.Drive
import DmaBurst.Worker.Transmit

namespace DmaBurst.Transmit

variable {σ η : Type} [PacketSource σ] [Hardware η]

def workers (c : Config) (queues : List Queue) (sources : List σ) : List (TxWorker σ) :=
  List.zipWith (fun queue source =>
    { queue, source, batchSize := c.batchSize, rounds := c.tx.rounds.toNat
      maxPolls := c.tx.maxPolls, backoff := ⟨c.tx.backoff, 1⟩ }) queues sources

/-- Fills every configured transmit queue from its source. Whatever was acquired is given back,
however the run ends. -/
def run (c : Config) (shutdown : Bool) (sources : List σ) (h : η) (card : Card) :
    Except (Halt RunError) RunReport × List σ × η × Card :=
  match c.validate with
  | .error e => (.error (.refused (.config e)), sources, h, card)
  | .ok () =>
    let count := c.tx.queues
    if sources.length ≠ count then
      (.error (.refused (.endpointCount count sources.length)), sources, h, card)
    else
      match Session.setup c.device .tx count none card with
      | (.error e, card) => (.error (.refused e), sources, h, card)
      | (.ok s, card) =>
        let (answer, ws, h, card) :=
          Drive.run c.schedule shutdown (workers c s.queues sources) h card
        let s := { s with queues := ws.map TxWorker.queue }
        (answer.map fun reports => ⟨.tx, reports⟩, ws.map TxWorker.source, h, s.teardown card)

end DmaBurst.Transmit
