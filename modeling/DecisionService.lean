import DecisionService.Binary64.Basic
import DecisionService.Binary64.Notation
import DecisionService.Binary64.Shortest
import DecisionService.Bytes
import DecisionService.Client.Call
import DecisionService.Client.Config
import DecisionService.Client.Error
import DecisionService.Client.Remote
import DecisionService.Client.Transport
import DecisionService.Decimal.Basic
import DecisionService.Decimal.Notation
import DecisionService.Decision.Coercion
import DecisionService.Decision.Context
import DecisionService.Decision.Model
import DecisionService.Decision.Request
import DecisionService.Decision.Response
import DecisionService.Decision.Result
import DecisionService.Engine.Container
import DecisionService.Engine.Exchange
import DecisionService.Engine.Host
import DecisionService.Engine.Logic
import DecisionService.Engine.Model
import DecisionService.Engine.Run
import DecisionService.Engine.Service
import DecisionService.Entries
import DecisionService.Http.Host
import DecisionService.Http.Message
import DecisionService.Http.Percent
import DecisionService.Http.Status
import DecisionService.Http.Url
import DecisionService.Json.Doc
import DecisionService.Json.Flaw
import DecisionService.Json.Literal
import DecisionService.Json.Natural
import DecisionService.Json.Quoted
import DecisionService.Json.Source
import DecisionService.Json.Target
import DecisionService.MessagePack.Item
import DecisionService.MessagePack.Marker
import DecisionService.MessagePack.Source
import DecisionService.MessagePack.Target
import DecisionService.Number.Basic
import DecisionService.Number.Binary64
import DecisionService.Proofs.Binary64.Notation
import DecisionService.Proofs.Bytes
import DecisionService.Proofs.Client.Formats
import DecisionService.Proofs.Decimal.Magnitude
import DecisionService.Proofs.Decimal.Notation
import DecisionService.Proofs.Decision.Equivalent
import DecisionService.Proofs.Decision.Payload
import DecisionService.Proofs.Engine.Answer
import DecisionService.Proofs.Engine.Equivalent
import DecisionService.Proofs.Engine.Skip
import DecisionService.Proofs.Entries
import DecisionService.Proofs.Json.Doc
import DecisionService.Proofs.Json.Literal
import DecisionService.Proofs.Json.Number
import DecisionService.Proofs.Json.Payload
import DecisionService.Proofs.Json.Quoted
import DecisionService.Proofs.Json.Value
import DecisionService.Proofs.MessagePack.Item
import DecisionService.Proofs.MessagePack.Lossless
import DecisionService.Proofs.MessagePack.Payload
import DecisionService.Proofs.MessagePack.Value
import DecisionService.Proofs.Numeral
import DecisionService.Proofs.Outcome
import DecisionService.Proofs.Related
import DecisionService.Proofs.Utf8
import DecisionService.Proofs.Value.Equivalent
import DecisionService.Proofs.Value.Relay
import DecisionService.Proofs.Value.Same
import DecisionService.Proofs.Wire.Channel
import DecisionService.Proofs.Wire.Format
import DecisionService.Server.Answer
import DecisionService.Server.Config
import DecisionService.Server.Load
import DecisionService.Server.Negotiation
import DecisionService.Server.Route
import DecisionService.Settings.Basic
import DecisionService.Settings.File
import DecisionService.Settings.Toml
import DecisionService.Settings.Yaml
import DecisionService.Text.Blank
import DecisionService.Text.Printed
import DecisionService.Text.Punycode
import DecisionService.Text.Shapeless
import DecisionService.Text.Split
import DecisionService.Text.UpperCase
import DecisionService.Text.Utf8
import DecisionService.Value.Basic
import DecisionService.Wire.Format
import DecisionService.Wire.Problem
import DecisionService.Wire.Schema
import DecisionService.Wire.Source
import DecisionService.Wire.Target
import DecisionService.Proofs.Engine.Recovery
import DecisionService.Proofs.Engine.Assembly
import DecisionService.Proofs.Engine.Whole
import DecisionService.Proofs.Engine.Faults
import DecisionService.Proofs.Binary64.Overflow
import DecisionService.Proofs.Value.Reordered
import DecisionService.Proofs.Json.Integral
import DecisionService.Proofs.Json.Announced
import DecisionService.Proofs.Json.Untyped
import DecisionService.Proofs.Value.Distinct
import DecisionService.Proofs.Wire.Sets
import DecisionService.Proofs.Engine.History
import DecisionService.Proofs.Engine.Sessions
import DecisionService.Proofs.Engine.Registrations
import DecisionService.Proofs.Engine.Order
import DecisionService.Proofs.Engine.Compared
import DecisionService.Proofs.Value.Alike
import DecisionService.Proofs.Client.Transparent
import DecisionService.Proofs.Engine.Listing
import DecisionService.Proofs.Text.Split
import DecisionService.Proofs.Http.Percent
import DecisionService.Proofs.Http.Path
import DecisionService.Proofs.Http.Url
import DecisionService.Proofs.Client.Resource
import DecisionService.Proofs.Wire.Marshal
import DecisionService.Proofs.Server.Reached
import DecisionService.Proofs.Wire.Read
import DecisionService.Proofs.Value.DecimalForm
import DecisionService.Proofs.Client.Coerced
import DecisionService.Proofs.Json.Cut
import DecisionService.Proofs.Json.Framing
import DecisionService.Proofs.MessagePack.Cut
import DecisionService.Proofs.MessagePack.Framing
import DecisionService.Proofs.Wire.Refused
import DecisionService.Proofs.Wire.Framing
import DecisionService.Proofs.Wire.Textual
import DecisionService.Proofs.Server.Answered
import DecisionService.Proofs.Client.Listed
import DecisionService.Proofs.Value.Coercion
import DecisionService.Proofs.Client.Interrupted
import DecisionService.Proofs.Engine.Accounting
import DecisionService.Proofs.Engine.Frame
import DecisionService.Proofs.Engine.Composed
import DecisionService.Proofs.Client.Exchanged
import DecisionService.Proofs.Json.Numeric
import DecisionService.Proofs.Number.Rounded
import DecisionService.Proofs.Number.Limits
import DecisionService.Proofs.Value.Equality
