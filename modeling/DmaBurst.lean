import DmaBurst.Bytes
import DmaBurst.Card.Basic
import DmaBurst.Card.Component
import DmaBurst.Card.Error
import DmaBurst.CommandLine.Emulation
import DmaBurst.CommandLine.Error
import DmaBurst.CommandLine.Options
import DmaBurst.CommandLine.Run
import DmaBurst.CommandLine.Usage
import DmaBurst.Config.Basic
import DmaBurst.Config.Decode
import DmaBurst.Config.Error
import DmaBurst.Decimal.Binary64
import DmaBurst.Fault
import DmaBurst.Io.FileTree
import DmaBurst.Io.QueueFile
import DmaBurst.Io.Scripted
import DmaBurst.Io.Sink
import DmaBurst.Io.Source
import DmaBurst.Main
import DmaBurst.PacketRing.Basic
import DmaBurst.Placement
import DmaBurst.Proofs.Backoff.Doubling
import DmaBurst.Proofs.Backoff.Duration
import DmaBurst.Proofs.Backoff.Form
import DmaBurst.Proofs.Card.Alike
import DmaBurst.Proofs.Card.Lines
import DmaBurst.Proofs.CommandLine.Feed
import DmaBurst.Proofs.CommandLine.Grammar
import DmaBurst.Proofs.CommandLine.Groups
import DmaBurst.Proofs.CommandLine.Moves
import DmaBurst.Proofs.CommandLine.Override
import DmaBurst.Proofs.CommandLine.Receive
import DmaBurst.Proofs.Component.Board
import DmaBurst.Proofs.Component.Lookup
import DmaBurst.Proofs.Config.Budgets
import DmaBurst.Proofs.Config.Document
import DmaBurst.Proofs.Config.Record
import DmaBurst.Proofs.Config.Values
import DmaBurst.Proofs.Contract.Accounts
import DmaBurst.Proofs.Contract.Answers
import DmaBurst.Proofs.Contract.Calls
import DmaBurst.Proofs.Contract.Kept
import DmaBurst.Proofs.Contract.Pairing
import DmaBurst.Proofs.Delivery.ExactlyOnce
import DmaBurst.Proofs.Delivery.Handle
import DmaBurst.Proofs.Delivery.Order
import DmaBurst.Proofs.Delivery.Owner
import DmaBurst.Proofs.Delivery.Rig
import DmaBurst.Proofs.Filling
import DmaBurst.Proofs.Io.QueueFile
import DmaBurst.Proofs.Io.Reader
import DmaBurst.Proofs.Io.SendBack
import DmaBurst.Proofs.Lifecycle.Bench
import DmaBurst.Proofs.Lifecycle.Words
import DmaBurst.Proofs.Lifecycle.Writes
import DmaBurst.Proofs.Placement
import DmaBurst.Proofs.Queue.Burst
import DmaBurst.Proofs.Queue.Lifecycle
import DmaBurst.Proofs.Ring.Cells
import DmaBurst.Proofs.Ring.Duplex
import DmaBurst.Proofs.Ring.Fifo
import DmaBurst.Proofs.Ring.Idle
import DmaBurst.Proofs.Ring.Index
import DmaBurst.Proofs.Ring.Lengths
import DmaBurst.Proofs.Ring.Refinement
import DmaBurst.Proofs.Ring.Turning
import DmaBurst.Proofs.Ring.Window
import DmaBurst.Proofs.Ring.Wrap
import DmaBurst.Proofs.Run.Account
import DmaBurst.Proofs.Run.Alone
import DmaBurst.Proofs.Run.Capped
import DmaBurst.Proofs.Run.Drive
import DmaBurst.Proofs.Run.EffectOrder
import DmaBurst.Proofs.Run.FirstFailure
import DmaBurst.Proofs.Run.GiveBack
import DmaBurst.Proofs.Run.InTurn
import DmaBurst.Proofs.Run.Interleaving
import DmaBurst.Proofs.Run.Journal
import DmaBurst.Proofs.Run.Mishap
import DmaBurst.Proofs.Run.Phases
import DmaBurst.Proofs.Run.Ports
import DmaBurst.Proofs.Run.Reuse
import DmaBurst.Proofs.Run.Rota
import DmaBurst.Proofs.Run.Scene
import DmaBurst.Proofs.Run.Schedule
import DmaBurst.Proofs.Run.Settle
import DmaBurst.Proofs.Run.Setup
import DmaBurst.Proofs.Run.SinkMap
import DmaBurst.Proofs.Run.Teardown
import DmaBurst.Proofs.Run.Threads
import DmaBurst.Proofs.Slot
import DmaBurst.Proofs.Text.Numeral
import DmaBurst.Proofs.Text.Quoted
import DmaBurst.Proofs.Toml.Document
import DmaBurst.Proofs.Toml.Entries
import DmaBurst.Proofs.Worker.Budget
import DmaBurst.Proofs.Worker.Charge
import DmaBurst.Proofs.Worker.Failure
import DmaBurst.Proofs.Worker.Meter
import DmaBurst.Proofs.Worker.Pace
import DmaBurst.Proofs.Worker.ReceiveBurst
import DmaBurst.Proofs.Worker.ReceiveStream
import DmaBurst.Proofs.Worker.Sink
import DmaBurst.Proofs.Worker.StaticReceive
import DmaBurst.Proofs.Worker.StaticTransmit
import DmaBurst.Proofs.Worker.Status
import DmaBurst.Proofs.Worker.Tidy
import DmaBurst.Proofs.Worker.TransmitBurst
import DmaBurst.Proofs.Worker.TransmitStream
import DmaBurst.Queue.Basic
import DmaBurst.Queue.Burst
import DmaBurst.Queue.Channel
import DmaBurst.Run.Drive
import DmaBurst.Run.Receive
import DmaBurst.Run.Scene
import DmaBurst.Run.Session
import DmaBurst.Run.Transmit
import DmaBurst.Slot
import DmaBurst.Text.Basic
import DmaBurst.Text.Inspect
import DmaBurst.Text.Quoted
import DmaBurst.Toml.Document
import DmaBurst.Toml.Number
import DmaBurst.Toml.Reader
import DmaBurst.Toml.Text
import DmaBurst.Toml.Tree
import DmaBurst.Worker.Backoff
import DmaBurst.Worker.Basic
import DmaBurst.Worker.Budget
import DmaBurst.Worker.Receive
import DmaBurst.Worker.Report
import DmaBurst.Worker.Transmit
