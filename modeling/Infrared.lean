import Infrared.Bench.Loopback
import Infrared.Bench.Script
import Infrared.Buffer.Lemmas
import Infrared.Client
import Infrared.Field.Stream.Lemmas
import Infrared.Proofs.Request.Content
import Infrared.Proofs.Request.Draft
import Infrared.Proofs.Request.Verdict
import Infrared.Proofs.Request.Grammar
import Infrared.Proofs.FieldPieces
import Infrared.Proofs.Request.Tracking
import Infrared.Proofs.Request.Resumption
import Infrared.Proofs.Answer
import Infrared.Proofs.History
import Infrared.Proofs.Session.View
import Infrared.Proofs.Device.View
import Infrared.Proofs.BoardCalls
import Infrared.Proofs.Device.Run
import Infrared.Proofs.Device.Waiting
import Infrared.Proofs.Device.Reception
import Infrared.Proofs.Device.WaitState
import Infrared.Proofs.Device.Fragmentation
import Infrared.Proofs.Device.Replies
import Infrared.Proofs.Device.Configuration
import Infrared.Proofs.Device.Adoption
import Infrared.Proofs.Bench.Calls
import Infrared.Proofs.Device.Untraced
import Infrared.Proofs.Bench.Pump
import Infrared.Proofs.Request.Refusal
import Infrared.Proofs.Client.Wire
import Infrared.Proofs.Bench.Signal
import Infrared.Proofs.Bench.Loopback
import Infrared.Proofs.Bench.Service
import Infrared.Proofs.Client.Conversation
import Infrared.Proofs.Likeness
import Infrared.Proofs.Device.Likeness
import Infrared.Proofs.Device.Renewal
import Infrared.Proofs.Device.Beacon
import Infrared.Proofs.Device.Stray
import Infrared.Proofs.Device.Effect
import Infrared.Proofs.Device.Log
import Infrared.Proofs.Device.Discipline
import Infrared.Proofs.Device.Arbitration
import Infrared.Proofs.Device.Service
import Infrared.Proofs.Device.Advertisement
import Infrared.Proofs.Device.Act
import Infrared.Proofs.Device.Causation
import Infrared.Proofs.Device.Timer
import Infrared.Proofs.Items.Writing
import Infrared.Proofs.Items.Reading
import Infrared.Proofs.Access
import Infrared.Proofs.Request.Room
import Infrared.Proofs.Session.Soundness
import Infrared.Proofs.Device.Soundness
import Infrared.Proofs.Device.Unnamed
import Infrared.Proofs.Link
import Infrared.Proofs.Bench.Script
import Infrared.Proofs.Client.Signal
import Infrared.Proofs.Client.Encoding
import Infrared.Proofs.Client.Reception
import Infrared.Proofs.Client.Asking
import Infrared.Proofs.Clock
import Infrared.Proofs.Sampling
import Infrared.Proofs.Transcript
import Infrared.Proofs.Deadline
import Infrared.Proofs.Waveform
import Infrared.Proofs.Bench.Drift
import Infrared.Proofs.Loan
import Infrared.Proofs.Queue
import Infrared.Proofs.Field.Misuse
import Infrared.Proofs.Session.Standstill
import Infrared.Proofs.Bench.Transfer
import Infrared.Proofs.Items.Scanning
import Infrared.Proofs.Payload
import Infrared.Proofs.Layout
import Infrared.Proofs.Field.Checked
import Infrared.Proofs.Field.Machine
import Infrared.Proofs.Machine.Decoding
import Infrared.Proofs.Machine.Encoding
import Infrared.Proofs.Machine.Station
import Infrared.Proofs.Machine.Board
import Infrared.Proofs.Machine.Session
import Infrared.Proofs.Machine.Conversation
import Infrared.Proofs.Machine.Device
import Infrared.Proofs.Machine.Soundness
import Infrared.Proofs.Machine.WaitState
