namespace DmaBurst.CommandLine

def usage : String :=
  "burstq - burst DMA queue driver

USAGE:
    burstq <receive|transmit> [OPTIONS]

OPTIONS:
    -c, --config <PATH>       TOML configuration file (flags override it)
    -d, --device <ID>         Device identifier (default: 0)
    -b, --batch <N>           Descriptors per burst (default: 64)
        --schedule <MODE>     thread-per-queue | round-robin
        --cpu <auto|off|LIST> Worker pinning, e.g. 2,3,4 (default: off)
        --max-polls <N>       Give up on a queue after N polls
        --backoff <POLICY>    spin | yield | sleep:<us> | exp:<max-us>
        --prefix <NAME>       Data file prefix (default: dma_data_)
    -h, --help                Print this help message

RECEIVE:
    -i, --iterations <N>      Workload iterations per queue (default: 6)
    -o, --out-dir <DIR>       Directory for <prefix><queue>.dat (default: .)
        --no-reset            Skip the reset pulse after the queues start

TRANSMIT:
    -q, --queues <N>          Transmit queues (default: 4)
    -l, --packet-len <N>      Payload bytes per packet (default: 64)
    -r, --rounds <N>          Bursts per queue (default: 1)
        --in-dir <DIR>        Send <prefix><queue>.dat instead of the pattern

EMULATED DEVICE:
        --ring <N>            Slots per ring (default: 1024)
        --rx-packet-len <N>   Bytes per received packet (default: 64)
        --withhold <N>        Packets per queue the card never delivers;
                              implies --max-polls 1000000 unless given

EXAMPLE:
    burstq receive --out-dir /tmp/capture --max-polls 1000000
    burstq transmit --queues 4 --rounds 8 --backoff yield

"

end DmaBurst.CommandLine
