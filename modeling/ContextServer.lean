import ContextServer.Envelope.Wire
import ContextServer.ProviderError
import ContextServer.Audit
import ContextServer.Payload.Negotiation
import ContextServer.Payload.Tool
import ContextServer.Payload.Resource
import ContextServer.Payload.Prompt
import ContextServer.Stream.Reader
import ContextServer.Stream.Writer
import ContextServer.Settings
import ContextServer.Dispatch
import ContextServer.Provider.Canned
import ContextServer.Provider.Demo
import ContextServer.CommandLine
import ContextServer.Main
import ContextServer.Proofs.Session.Transition
import ContextServer.Proofs.Codec.Record
import ContextServer.Proofs.Dispatch.Replies
import ContextServer.Proofs.Envelope.RoundTrip
import ContextServer.Proofs.Session.Account
import ContextServer.Proofs.Session.Replies
import ContextServer.Proofs.Stream.RoundTrip
import ContextServer.Proofs.Session.Requests
import ContextServer.Proofs.Session.Aftermath
import ContextServer.Proofs.Json.Prefix
import ContextServer.Proofs.Stream.Ending
import ContextServer.Proofs.Stream.Truncation
import ContextServer.Proofs.Stream.Limit
import ContextServer.Proofs.Session.Slots
import ContextServer.Proofs.Settings.Setup
import ContextServer.Proofs.Json.Numeral
import ContextServer.Proofs.Binary64.Rounding
import ContextServer.Proofs.Binary64.Shortest
import ContextServer.Proofs.Json.Kept
import ContextServer.Proofs.Json.Spelling
import ContextServer.Proofs.Dispatch.Identifiers
import ContextServer.Proofs.Dispatch.Disclosure
import ContextServer.Proofs.Codec.Lawful
import ContextServer.Proofs.Payload.RoundTrip
import ContextServer.Proofs.Provider.Registrations
import ContextServer.Proofs.Session.Outage
import ContextServer.Proofs.Stream.Sharing
import ContextServer.Proofs.Stream.Lines
import ContextServer.Proofs.Envelope.Acceptance
import ContextServer.Proofs.Stream.Headers
import ContextServer.Proofs.Audit.Places
import ContextServer.Proofs.Provider.Resolution
import ContextServer.Proofs.Payload.Forms
import ContextServer.Proofs.Session.Calls
import ContextServer.Proofs.Session.Negotiation
import ContextServer.Proofs.Settings.Acceptance
import ContextServer.Proofs.Session.Waking
