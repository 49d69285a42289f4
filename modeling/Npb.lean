import Npb.Chain.Completion
import Npb.Chain.Messages
import Npb.Chain.Processes
import Npb.Chain.Safety
import Npb.Codec.Canonical
import Npb.Codec.Collision
import Npb.Codec.Container
import Npb.Codec.Containment
import Npb.Codec.Decode
import Npb.Codec.Encode
import Npb.Codec.ErrorPaths
import Npb.Codec.Externalise
import Npb.Codec.FailedEncode
import Npb.Codec.Format
import Npb.Codec.InPlace
import Npb.Codec.JsonForm
import Npb.Codec.Layout
import Npb.Codec.Model
import Npb.Codec.Mutation
import Npb.Codec.Overwrite
import Npb.Codec.Placement
import Npb.Codec.Reading
import Npb.Codec.Relocation
import Npb.Codec.Republish
import Npb.Codec.RoundTrip
import Npb.Codec.Schema
import Npb.Codec.Sections
import Npb.Codec.StoreLaws
import Npb.Codec.Threshold
import Npb.Codec.Unresolved
import Npb.Foundations.Channels
import Npb.Foundations.Checks
import Npb.Foundations.Custody
import Npb.Foundations.Delegation
import Npb.Foundations.Dict
import Npb.Foundations.Effects
import Npb.Foundations.Memory
import Npb.Foundations.Recency
import Npb.Foundations.Runs
import Npb.Foundations.StructFormat
import Npb.Foundations.ValueTree
import Npb.Mstore.Answers
import Npb.Mstore.Authorisation
import Npb.Mstore.Caching
import Npb.Mstore.Calls
import Npb.Mstore.Confinement
import Npb.Mstore.Creating
import Npb.Mstore.Daemon
import Npb.Mstore.Descriptors
import Npb.Mstore.Expiry
import Npb.Mstore.Forks
import Npb.Mstore.Framing
import Npb.Mstore.Holding
import Npb.Mstore.Inheritance
import Npb.Mstore.Integrity
import Npb.Mstore.Leases
import Npb.Mstore.Lifetime
import Npb.Mstore.Mappings
import Npb.Mstore.Opening
import Npb.Mstore.Operations
import Npb.Mstore.Orphans
import Npb.Mstore.Permissions
import Npb.Mstore.Protocol
import Npb.Mstore.Provenance
import Npb.Mstore.Races
import Npb.Mstore.Reading
import Npb.Mstore.Received
import Npb.Mstore.Refusals
import Npb.Mstore.Registry
import Npb.Mstore.Releasing
import Npb.Mstore.Remote
import Npb.Mstore.Requests
import Npb.Mstore.Responses
import Npb.Mstore.Server
import Npb.Mstore.Shapes
import Npb.Mstore.Shutdown
import Npb.Mstore.Validity
import Npb.Mstore.Worker
import Npb.Numpy.Arrays
import Npb.Numpy.Elements
import Npb.Numpy.Shaped
import Npb.Numpy.Views
import Npb.Python.Values
import Npb.Vineyard.Hops
import Npb.Vineyard.Leftovers
import Npb.Vineyard.Measuring
import Npb.Vineyard.Resolved
import Npb.Vineyard.Resolving
import Npb.Vineyard.Reuse
import Npb.Vineyard.Runs
import Npb.Vineyard.Store
import Npb.Zmq.Sockets
