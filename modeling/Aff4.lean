import Aff4.Reader.RoundTrip
import Aff4.Vfs.ReadAt
import Aff4.Reader.Coverage
import Aff4.Logical.Segments
import Aff4.Logical.Metadata
import Aff4.Crypto.RoundTrip
import Aff4.Crypto.Sectors
import Aff4.Crypto.Frame
import Aff4.Forensic.Findings
import Aff4.Reader.Session
import Aff4.Reader.Open
import Aff4.Reader.Content
import Aff4.Map.ReferenceDisk
import Aff4.Map.LinearScan
import Aff4.Reader.Direct
import Aff4.Reader.Uniform
import Aff4.Kind
import Aff4.Safety
import Aff4.Vfs.History
import Aff4.Forensic.Unreadable
import Aff4.Reader.Overflow
import Aff4.Reader.Seek
import Aff4.Turtle.Digests
import Aff4.Logical.Boundary
import Aff4.Turtle.Binding
import Aff4.Map.Symbolic
import Aff4.Turtle.Rendering
import Aff4.Turtle.Independence
import Aff4.Map.Lines
import Aff4.Reader.IndexEntries
import Aff4.Allocation
import Aff4.Crypto.Output
import Aff4.Turtle.Codec
import Aff4.Reader.Narrowing
import Aff4.Builds
import Aff4.Reader.Frame
import Aff4.Forensic.Tampering
import Aff4.Turtle.Images
import Aff4.Reader.Written
import Aff4.Testutil
import Aff4.Vfs.Store
import Aff4.Forensic.Written
import Aff4.Logical.Encrypted
import Aff4.Testutil.Logical
import Aff4.Forensic.Report
